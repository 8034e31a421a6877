import Tmuduo.TcpConnection

/-!
# The output stream of a connection

The bytes the kernel has accepted, followed by the output buffer, should be the messages in
the order they were sent (`OutputIntact`). `sendInLoop_ok` says what one `sendInLoop` accepts
and buffers (`sendEffect`), and `handleWrite_output` that draining moves bytes from one side
to the other.

After a direct write that the kernel cut short, `sendInLoop` appends the message from its
first byte on and not from the first byte that remains. So a step keeps the stream intact
exactly when that makes no difference (`DirectWriteFits`), and `output_intact_iff` is the same
for runs. `output_not_intact` is the shortest run that loses a byte and repeats another.
-/

set_option autoImplicit false

namespace Tmuduo

namespace TcpWorld

variable (c : TcpWorld)

/-! ## Queueing and shutting down change one field -/

@[simp] theorem queueIf_state (p : Bool) (f : TcpFunctor) : (c.queueIf p f).state = c.state := by
  cases p <;> rfl

@[simp] theorem queueIf_channel (p : Bool) (f : TcpFunctor) :
    (c.queueIf p f).channel = c.channel := by
  cases p <;> rfl

@[simp] theorem queueIf_outputBuffer (p : Bool) (f : TcpFunctor) :
    (c.queueIf p f).outputBuffer = c.outputBuffer := by
  cases p <;> rfl

@[simp] theorem queueIf_accepted (p : Bool) (f : TcpFunctor) :
    (c.queueIf p f).accepted = c.accepted := by
  cases p <;> rfl

@[simp] theorem queueIf_shutdownWrites (p : Bool) (f : TcpFunctor) :
    (c.queueIf p f).shutdownWrites = c.shutdownWrites := by
  cases p <;> rfl

@[simp] theorem queueIf_callers (p : Bool) (f : TcpFunctor) :
    (c.queueIf p f).callers = c.callers := by
  cases p <;> rfl

@[simp] theorem queueIf_callbacks (p : Bool) (f : TcpFunctor) :
    (c.queueIf p f).callbacks = c.callbacks := by
  cases p <;> rfl

theorem mem_of_mem_queueIf {p : Bool} {f g : TcpFunctor}
    (h : g ∈ (c.queueIf p f).pendingFunctors) (hne : g ≠ f) : g ∈ c.pendingFunctors := by
  cases p with
  | false => exact h
  | true => exact (List.mem_append.mp h).resolve_right fun hg => hne (List.mem_singleton.mp hg)

@[simp] theorem shutdownInLoop_state : c.shutdownInLoop.state = c.state := by
  unfold shutdownInLoop
  split_ifs <;> rfl

@[simp] theorem shutdownInLoop_channel : c.shutdownInLoop.channel = c.channel := by
  unfold shutdownInLoop
  split_ifs <;> rfl

@[simp] theorem shutdownInLoop_outputBuffer : c.shutdownInLoop.outputBuffer = c.outputBuffer := by
  unfold shutdownInLoop
  split_ifs <;> rfl

@[simp] theorem shutdownInLoop_accepted : c.shutdownInLoop.accepted = c.accepted := by
  unfold shutdownInLoop
  split_ifs <;> rfl

@[simp] theorem shutdownInLoop_pendingFunctors :
    c.shutdownInLoop.pendingFunctors = c.pendingFunctors := by
  unfold shutdownInLoop
  split_ifs <;> rfl

@[simp] theorem shutdownInLoop_callbacks : c.shutdownInLoop.callbacks = c.callbacks := by
  unfold shutdownInLoop
  split_ifs <;> rfl

@[simp] theorem shutdownInLoop_callers : c.shutdownInLoop.callers = c.callers := by
  unfold shutdownInLoop
  split_ifs <;> rfl

/-! ## What one send does -/

/-- What `sendInLoop` hands to the kernel and what it adds to the output buffer. -/
def sendEffect (message : Bytes) (r : WriteResult) : Bytes × Bytes :=
  if c.idle then
    match r with
    | .wrote n => (message.take n, message.take (message.length - n))
    | .failed e => ([], if e = .EPIPE then [] else message)
  else ([], message)

/-- `c'` is `c` after it handed `a` to the kernel and buffered `x`. The channel is writing if
it was, or if `x` has bytes, and only notifications were queued. -/
structure Sent (c c' : TcpWorld) (a x : Bytes) : Prop where
  state : c'.state = c.state
  accepted : c'.accepted = c.accepted ++ a
  content : c'.outputBuffer.content = c.outputBuffer.content ++ x
  writing : c'.channel.isWriting = (c.channel.isWriting || !x.isEmpty)
  shutdownWrites : c'.shutdownWrites = c.shutdownWrites
  callers : c'.callers = c.callers
  functors : ∀ k, .shutdownInLoop k ∈ c'.pendingFunctors → .shutdownInLoop k ∈ c.pendingFunctors

theorem sent_refl : Sent c c [] [] :=
  ⟨rfl, by simp, by simp, by simp, rfl, rfl, fun _ h => h⟩

variable {c}

theorem Sent.directWrite (message : Bytes) (n : ℕ) :
    Sent c (c.directWrite message (.wrote n)).1 (message.take n) [] where
  state := by simp [TcpWorld.directWrite]
  accepted := by simp [TcpWorld.directWrite]
  content := by simp [TcpWorld.directWrite]
  writing := by simp [TcpWorld.directWrite]
  shutdownWrites := by simp [TcpWorld.directWrite]
  callers := by simp [TcpWorld.directWrite]
  functors k h := by simpa using mem_of_mem_queueIf _ h (by simp)

theorem Sent.bufferRest {c₁ : TcpWorld} {a message : Bytes} {remaining : ℕ} (h : Sent c c₁ a [])
    (hpos : message.take remaining ≠ []) :
    Sent c (c₁.bufferRest message remaining) a (message.take remaining) where
  state := by simp [TcpWorld.bufferRest, h.state]
  accepted := by simp [TcpWorld.bufferRest, h.accepted]
  content := by simp [TcpWorld.bufferRest, h.content]
  writing := by
    have hx : (message.take remaining).isEmpty = false := by simpa using hpos
    cases hw : c₁.channel.isWriting <;> simp [TcpWorld.bufferRest, hw, hx]
  shutdownWrites := by simp [TcpWorld.bufferRest, h.shutdownWrites]
  callers := by simp [TcpWorld.bufferRest, h.callers]
  functors k hk := by
    have hold := mem_of_mem_queueIf _ hk (by simp)
    exact h.functors k hold

/-- Nothing was written, so the whole message is buffered. -/
theorem Sent.bufferWhole {message : Bytes} (hne : message ≠ []) :
    Sent c (c.bufferRest message message.length) [] message := by
  have hwhole : message.take message.length = message := List.take_length
  have h : Sent c (c.bufferRest message message.length) [] (message.take message.length) :=
    c.sent_refl.bufferRest (by rwa [hwhole])
  rwa [hwhole] at h

variable (c)

/-- `sendInLoop` on a live connection succeeds, with the effect `sendEffect` names. -/
theorem sendInLoop_ok {message : Bytes} {r : WriteResult} (hstate : c.state ≠ .kDisconnected)
    (hr : r.Valid message.length) :
    ∃ c', c.sendInLoop message r = .ok c' ∧
      Sent c c' (c.sendEffect message r).1 (c.sendEffect message r).2 := by
  unfold sendInLoop sendEffect
  rw [if_neg hstate]
  rcases eq_or_ne message [] with rfl | hne
  · cases hidle : c.idle with
    | false => exact ⟨c, by simp [check], by simpa using c.sent_refl⟩
    | true =>
      cases r with
      | wrote n =>
        refine ⟨(c.directWrite [] (.wrote n)).1, by simp [check, directWrite], ?_⟩
        simpa using Sent.directWrite (c := c) [] n
      | failed e => exact ⟨c, by simp [check, directWrite], by simpa using c.sent_refl⟩
  · have hlen : 0 < message.length := List.length_pos_of_ne_nil hne
    cases hidle : c.idle with
    | false =>
      exact ⟨c.bufferRest message message.length, by simp [check, hlen],
        by simpa using Sent.bufferWhole hne⟩
    | true =>
      cases r with
      | wrote n =>
        have hn : n ≤ message.length := hr
        rcases Nat.eq_zero_or_pos (message.length - n) with hz | hpos
        · refine ⟨(c.directWrite message (.wrote n)).1, by simp [check, directWrite, hz], ?_⟩
          simpa [hz] using Sent.directWrite (c := c) message n
        · have htake : message.take (message.length - n) ≠ [] := by
            intro h0
            have hl := congrArg List.length h0
            simp only [List.length_take, List.length_nil] at hl
            omega
          refine ⟨(c.directWrite message (.wrote n)).1.bufferRest message (message.length - n),
            by simp [check, directWrite, hpos], ?_⟩
          simpa using (Sent.directWrite message n).bufferRest htake
      | failed e =>
        by_cases he : e = .EPIPE
        · exact ⟨c, by simp [check, directWrite, he], by simpa [he] using c.sent_refl⟩
        · exact ⟨c.bufferRest message message.length, by simp [check, directWrite, he, hlen],
            by simpa [he] using Sent.bufferWhole hne⟩

/-! ## What one drain does -/

/-- `c'` is `c` after the kernel took `n` bytes of the output buffer. Once the buffer is empty
the channel stops writing, and a disconnecting connection shuts down its write side. -/
structure Drained (c c' : TcpWorld) (n : ℕ) : Prop where
  state : c'.state = c.state
  accepted : c'.accepted = c.accepted ++ c.outputBuffer.content.take n
  content : c'.outputBuffer.content = c.outputBuffer.content.drop n
  writing : c'.channel.isWriting = !(c.outputBuffer.content.drop n).isEmpty
  shutdownWrites : c'.shutdownWrites = c.shutdownWrites ++
    if c.outputBuffer.content.drop n = [] ∧ c.state = .kDisconnecting then [[]] else []
  callers : c'.callers = c.callers
  functors : ∀ k, .shutdownInLoop k ∈ c'.pendingFunctors → .shutdownInLoop k ∈ c.pendingFunctors

theorem Drained.retrieveOutput {n : ℕ} (hne : c.outputBuffer.content.drop n ≠ [])
    (hw : c.channel.isWriting = true) : Drained c (c.retrieveOutput n) n where
  state := rfl
  accepted := rfl
  content := c.outputBuffer.content_retrieve n
  writing := by
    have hx : (c.outputBuffer.content.drop n).isEmpty = false := by simpa using hne
    rw [hx]
    exact hw
  shutdownWrites := by simp [TcpWorld.retrieveOutput, hne]
  callers := rfl
  functors _ h := h

theorem Drained.outputEmptied {n : ℕ} (hnil : c.outputBuffer.content.drop n = []) :
    Drained c (c.retrieveOutput n).outputEmptied n := by
  have hc : (c.outputBuffer.retrieve n).content = [] := by rw [ValidBuffer.content_retrieve, hnil]
  have hmem : ∀ k, .shutdownInLoop k ∈ (c.retrieveOutput n).outputEmptied.pendingFunctors →
      .shutdownInLoop k ∈ c.pendingFunctors := by
    intro k hk
    unfold TcpWorld.outputEmptied at hk
    simp only at hk
    split_ifs at hk
    · rw [shutdownInLoop_pendingFunctors] at hk
      simpa [TcpWorld.retrieveOutput] using mem_of_mem_queueIf _ hk (by simp)
    · simpa [TcpWorld.retrieveOutput] using mem_of_mem_queueIf _ hk (by simp)
  by_cases hd : c.state = .kDisconnecting
  all_goals
    refine ⟨?_, ?_, ?_, ?_, ?_, ?_, hmem⟩ <;>
    simp [TcpWorld.outputEmptied, TcpWorld.retrieveOutput, hd, hnil, shutdownInLoop,
      shutdownWrite, hc]

/-- `handleWrite` does nothing, or the channel was writing and the buffer is drained. -/
theorem handleWrite_cases (r : WriteResult) :
    c.handleWrite r = c ∨
      c.channel.isWriting = true ∧ ∃ n, 0 < n ∧ r = .wrote n ∧ Drained c (c.handleWrite r) n := by
  unfold handleWrite
  split_ifs with hw
  · cases r with
    | failed e => exact Or.inl rfl
    | wrote n =>
      cases n with
      | zero => exact Or.inl rfl
      | succ n =>
        refine Or.inr ⟨hw, n + 1, Nat.succ_pos n, rfl, ?_⟩
        have hempty := (c.outputBuffer.retrieve (n + 1)).readableBytes_eq_zero_iff
        rw [ValidBuffer.content_retrieve] at hempty
        simp only
        split_ifs with hz
        · exact Drained.outputEmptied c (hempty.mp hz)
        · exact Drained.retrieveOutput c (fun hnil => hz (hempty.mpr hnil)) hw
  · exact Or.inl rfl

end TcpWorld

/-! ## What one step of a run does -/

/-- One step of a run on a live connection, with the effect of each call in place of its
code. -/
inductive TcpStepped (s : TcpRun) : TcpStep → TcpRun → Prop
  | send {message : Bytes} {r : WriteResult} {c : TcpWorld} (hr : r.Valid message.length)
      (h : TcpWorld.Sent s.world c (s.world.sendEffect message r).1
        (s.world.sendEffect message r).2) :
      TcpStepped s (.sendInLoop message r) { s with world := c, sent := s.sent ++ message }
  | blocked (r : WriteResult) : TcpStepped s (.handleWrite r) s
  | drain {n : ℕ} {c : TcpWorld} (hw : s.world.channel.isWriting = true)
      (h : TcpWorld.Drained s.world c n) :
      TcpStepped s (.handleWrite (.wrote n)) { s with world := c }
  | read (r : ReadResult) (input : ValidBuffer) (callbacks : List TcpCallback) :
      TcpStepped s (.handleRead r)
        { s with world := { s.world with inputBuffer := input, callbacks := callbacks } }
  | exchange (caller : Caller) :
      TcpStepped s (.exchange caller) { s with world := s.world.exchange caller }
  | finish {i : ℕ} {call : Caller × StateE} (inLoop : Bool) (h : call ∈ s.world.callers) :
      TcpStepped s (.finish i inLoop) (TcpRun.finishCall
        { s with world := { s.world with callers := s.world.callers.eraseIdx i } } inLoop call)
  | functor {f : TcpFunctor} {rest : List TcpFunctor} (h : s.world.pendingFunctors = f :: rest) :
      TcpStepped s .runFunctor (TcpRun.callFunctor
        { s with world := { s.world with pendingFunctors := rest } } f)

theorem TcpStepped.of_exec {s u : TcpRun} {l : TcpStep} (hstate : s.world.state ≠ .kDisconnected)
    (he : tcpMachine.enabled s l) (hx : tcpMachine.exec s l = .ok u) : TcpStepped s l u := by
  cases l with
  | sendInLoop message r =>
    obtain ⟨c, hc, hs⟩ := s.world.sendInLoop_ok hstate he
    simp only [tcpMachine, hc, Except.map, Except.ok.injEq] at hx
    subst hx
    exact .send he hs
  | handleWrite r =>
    obtain rfl := Except.ok.inj hx
    rcases s.world.handleWrite_cases r with heq | ⟨hw, n, -, rfl, hd⟩
    · rw [heq]
      exact .blocked r
    · exact .drain hw hd
  | handleRead r =>
    cases r with
    | eof => exact absurd rfl he
    | data d =>
      obtain rfl := Except.ok.inj hx
      exact .read _ _ _
    | failed =>
      obtain rfl := Except.ok.inj hx
      exact .read .failed s.world.inputBuffer s.world.callbacks
  | exchange caller =>
    obtain rfl := Except.ok.inj hx
    exact .exchange caller
  | finish i inLoop =>
    have hi : i < s.world.callers.length := he
    simp only [tcpMachine, List.getElem?_eq_getElem hi, Except.ok.injEq] at hx
    subst hx
    exact .finish inLoop (List.getElem_mem hi)
  | runFunctor =>
    cases hf : s.world.pendingFunctors with
    | nil => exact absurd hf he
    | cons f rest =>
      simp only [tcpMachine, hf, Except.ok.injEq] at hx
      subst hx
      exact .functor hf

/-- No step fails on a live connection. -/
theorem tcpMachine_exec_ok {s : TcpRun} {l : TcpStep} (hstate : s.world.state ≠ .kDisconnected)
    (he : tcpMachine.enabled s l) : ∃ u, tcpMachine.exec s l = .ok u := by
  cases l with
  | sendInLoop message r =>
    obtain ⟨c, hc, -⟩ := s.world.sendInLoop_ok hstate he
    exact ⟨_, by simp only [tcpMachine, hc]; rfl⟩
  | handleWrite r => exact ⟨_, rfl⟩
  | handleRead r =>
    cases r with
    | eof => exact absurd rfl he
    | data d => exact ⟨_, rfl⟩
    | failed => exact ⟨_, rfl⟩
  | exchange caller => exact ⟨_, rfl⟩
  | finish i inLoop =>
    have hi : i < s.world.callers.length := he
    exact ⟨_, by simp only [tcpMachine, List.getElem?_eq_getElem hi]; rfl⟩
  | runFunctor =>
    cases hf : s.world.pendingFunctors with
    | nil => exact absurd hf he
    | cons f rest => exact ⟨_, by simp only [tcpMachine, hf]; rfl⟩

/-! ## Intact output -/

/-- The accepted bytes, then the buffered ones, are the bytes that were sent. -/
def OutputIntact (s : TcpRun) : Prop :=
  s.world.accepted ++ s.world.outputBuffer.content = s.sent

/-- The kernel refuses a write only with `EWOULDBLOCK`. -/
def BlockingWrites (_ : TcpRun) : TcpStep → Prop
  | .sendInLoop _ (.failed e) => e = .EWOULDBLOCK
  | .handleWrite (.failed e) => e = .EWOULDBLOCK
  | _ => True

/-- A direct write of which the kernel accepted `n` bytes leaves a message whose first
`length - n` bytes are its last ones. Writes accepted whole or not at all are of this kind. -/
def DirectWriteFits (s : TcpRun) : TcpStep → Prop
  | .sendInLoop message (.wrote n) =>
    s.world.idle = true → message.take (message.length - n) = message.drop n
  | _ => True

instance (s : TcpRun) : ∀ l, Decidable (BlockingWrites s l)
  | .sendInLoop _ (.failed e) => inferInstanceAs (Decidable (e = .EWOULDBLOCK))
  | .handleWrite (.failed e) => inferInstanceAs (Decidable (e = .EWOULDBLOCK))
  | .sendInLoop _ (.wrote _) | .handleWrite (.wrote _) | .handleRead _ | .exchange _ | .finish _ _
  | .runFunctor => isTrue trivial

instance (s : TcpRun) : ∀ l, Decidable (DirectWriteFits s l)
  | .sendInLoop _ (.wrote _) => inferInstanceAs (Decidable (_ → _))
  | .sendInLoop _ (.failed _) | .handleWrite _ | .handleRead _ | .exchange _ | .finish _ _
  | .runFunctor => isTrue trivial

/-- The connection is not disconnected, and no call in flight will set it so. -/
def Live (s : TcpRun) : Prop :=
  s.world.state ≠ .kDisconnected ∧ ∀ call ∈ s.world.callers, call.2 ≠ .kDisconnected

namespace TcpRun

variable (s : TcpRun)

theorem finishCall_intact (inLoop : Bool) (call : Caller × StateE) :
    OutputIntact (s.finishCall inLoop call) ↔ OutputIntact s := by
  obtain ⟨caller, old⟩ := call
  cases caller with
  | shutdown =>
    simp only [finishCall, TcpWorld.afterShutdown, OutputIntact]
    split_ifs <;> simp
  | forceClose =>
    simp only [finishCall, TcpWorld.afterForceClose, OutputIntact]
    split_ifs <;> simp

theorem callFunctor_intact (f : TcpFunctor) :
    OutputIntact (s.callFunctor f) ↔ OutputIntact s := by
  cases f with
  | shutdownInLoop caller => simp [callFunctor, OutputIntact]
  | writeComplete => exact Iff.rfl
  | highWaterMark len => exact Iff.rfl

theorem finishCall_live {inLoop : Bool} {call : Caller × StateE} (h : Live s)
    (hold : call.2 ≠ .kDisconnected) : Live (s.finishCall inLoop call) := by
  obtain ⟨caller, old⟩ := call
  obtain ⟨hs, hc⟩ := h
  cases caller with
  | shutdown =>
    simp only [finishCall, TcpWorld.afterShutdown]
    split_ifs
    · exact ⟨by simpa using hs, by simpa using hc⟩
    · exact ⟨by simpa using hs, by simpa using hc⟩
    · exact ⟨hs, hc⟩
  | forceClose =>
    simp only [finishCall, TcpWorld.afterForceClose]
    split_ifs
    · exact ⟨by simpa using hs, by simpa using hc⟩
    · exact ⟨hold, hc⟩

theorem callFunctor_live (f : TcpFunctor) (h : Live s) : Live (s.callFunctor f) := by
  cases f with
  | shutdownInLoop caller =>
    exact ⟨by simpa [callFunctor] using h.1, by simpa [callFunctor] using h.2⟩
  | writeComplete => exact h
  | highWaterMark len => exact h

end TcpRun

theorem live_step {s u : TcpRun} {l : TcpStep} (h : Live s) (hstep : TcpStepped s l u) :
    Live u := by
  cases hstep with
  | send _ hs => exact ⟨by simpa [hs.state] using h.1, by simpa only [hs.callers] using h.2⟩
  | blocked => exact h
  | drain _ hd => exact ⟨by simpa [hd.state] using h.1, by simpa only [hd.callers] using h.2⟩
  | read => exact h
  | exchange caller =>
    refine ⟨by simp [TcpWorld.exchange], fun call hcall => ?_⟩
    simp only [TcpWorld.exchange, List.mem_append, List.mem_singleton] at hcall
    rcases hcall with hcall | rfl
    · exact h.2 call hcall
    · exact h.1
  | finish inLoop hcall =>
    refine TcpRun.finishCall_live _ ⟨h.1, fun call hmem => ?_⟩ (h.2 _ hcall)
    exact h.2 call (List.mem_of_mem_eraseIdx hmem)
  | functor => exact TcpRun.callFunctor_live _ _ h

/-- One step keeps the output intact exactly when it meets `DirectWriteFits`. -/
theorem intact_step {s u : TcpRun} {l : TcpStep} (hgood : OutputIntact s)
    (hblock : BlockingWrites s l) (hstep : TcpStepped s l u) :
    OutputIntact u ↔ DirectWriteFits s l := by
  cases hstep with
  | @send message r c hr hs =>
    unfold OutputIntact at hgood ⊢
    simp only
    rw [hs.accepted, hs.content, ← hgood]
    unfold TcpWorld.sendEffect
    cases hidle : s.world.idle with
    | false =>
      refine iff_of_true (by simp) ?_
      cases r <;> simp [DirectWriteFits, hidle]
    | true =>
      have hnil : s.world.outputBuffer.content = [] := by
        simp only [TcpWorld.idle, Bool.and_eq_true, beq_iff_eq] at hidle
        exact s.world.outputBuffer.readableBytes_eq_zero_iff.mp hidle.2
      cases r with
      | wrote n =>
        have hsplit : message = message.take n ++ message.drop n := by simp
        simp only [hnil, if_true, List.nil_append, List.append_nil, List.append_assoc,
          List.append_cancel_left_eq, DirectWriteFits, hidle, true_implies]
        conv_lhs => rhs; rw [hsplit]
        rw [List.append_cancel_left_eq]
      | failed e =>
        have he : e = .EWOULDBLOCK := hblock
        exact iff_of_true (by simp [he]) trivial
  | blocked r => exact iff_of_true hgood (by simp [DirectWriteFits])
  | drain _ hd =>
    refine iff_of_true ?_ (by simp [DirectWriteFits])
    unfold OutputIntact at hgood ⊢
    simp only
    rw [hd.accepted, hd.content, List.append_assoc, List.take_append_drop, hgood]
  | read => exact iff_of_true hgood trivial
  | exchange => exact iff_of_true hgood trivial
  | finish inLoop hcall => exact iff_of_true ((TcpRun.finishCall_intact _ _ _).mpr hgood) trivial
  | functor => exact iff_of_true ((TcpRun.callFunctor_intact _ _).mpr hgood) trivial

/-- A connection of which nothing was sent, written or buffered. -/
structure TcpRun.Fresh (s : TcpRun) : Prop where
  accepted : s.world.accepted = []
  content : s.world.outputBuffer.content = []
  writing : s.world.channel.isWriting = false
  sent : s.sent = []
  callers : s.world.callers = []

theorem TcpRun.Fresh.live {s : TcpRun} (h : s.Fresh) (hstate : s.world.state ≠ .kDisconnected) :
    Live s :=
  ⟨hstate, by simp [h.callers]⟩

theorem TcpRun.Fresh.intact {s : TcpRun} (h : s.Fresh) : OutputIntact s := by
  rw [OutputIntact, h.accepted, h.content, h.sent]
  rfl

/-- On a connection that is not disconnected, under a kernel that accepts a prefix of what it
is offered or answers `EWOULDBLOCK`, the output is intact in every state of a run if and only
if every direct write of the run fits. -/
theorem output_intact_iff {s t : TcpRun} {ls : List TcpStep} (hfresh : s.Fresh)
    (hstate : s.world.state ≠ .kDisconnected)
    (hrun : (tcpMachine.restrict BlockingWrites).Run s ls t) :
    (∀ pre post u, ls = pre ++ post → (tcpMachine.restrict BlockingWrites).Run s pre u →
      OutputIntact u) ↔
    ((tcpMachine.restrict BlockingWrites).restrict DirectWriteFits).Run s ls t := by
  refine hrun.restrict_iff (hfresh.live hstate) hfresh.intact ?_ ?_
  · intro s l u hs he hx
    exact live_step hs (.of_exec hs.1 he.1 hx)
  · intro s l u hs hg he hx
    exact intact_step hg he.2 (.of_exec hs.1 he.1 hx)

namespace TcpRun

/-- The state of a new connection after a run in which every direct write fits. -/
def WellWritten (t : TcpRun) : Prop :=
  ∃ s ls, s.Fresh ∧ s.world.state ≠ .kDisconnected ∧
    ((tcpMachine.restrict BlockingWrites).restrict DirectWriteFits).Run s ls t

theorem WellWritten.intact {t : TcpRun} (h : t.WellWritten) : OutputIntact t := by
  obtain ⟨s, ls, hfresh, hstate, hrun⟩ := h
  have hinv : Live t ∧ OutputIntact t := by
    induction hrun with
    | nil => exact ⟨hfresh.live hstate, hfresh.intact⟩
    | snoc _ he hx ih =>
      have hstep := TcpStepped.of_exec ih.1.1 he.1.1 hx
      exact ⟨live_step ih.1 hstep, (intact_step ih.2 he.1.2 hstep).mpr he.2⟩
  exact hinv.2

/-- What the kernel has taken is the first part of what was sent. -/
theorem WellWritten.accepted_isPrefix {t : TcpRun} (h : t.WellWritten) :
    t.world.accepted <+: t.sent :=
  ⟨t.world.outputBuffer.content, h.intact⟩

/-- A drained connection has given the kernel all that was sent. -/
theorem WellWritten.accepted_eq {t : TcpRun} (h : t.WellWritten)
    (hdrained : t.world.outputBuffer.content = []) : t.world.accepted = t.sent := by
  have hintact := h.intact
  rwa [OutputIntact, hdrained, List.append_nil] at hintact

end TcpRun

theorem TcpRun.established_fresh (sockfd : ℤ) (writeComplete highWater : Bool) (mark : ℕ) :
    (established sockfd writeComplete highWater mark).Fresh where
  accepted := rfl
  content := ValidBuffer.content_new
  writing := by simp [established]
  sent := rfl
  callers := rfl

/-- A first write that is cut short where this makes no difference, a blocked one, and a message
behind unsent output, all drained in the end. -/
def cutAndBlocked : List TcpStep :=
  [.sendInLoop (ascii "aa") (.wrote 1), .handleWrite (.wrote 1),
    .sendInLoop (ascii "bcd") (.failed .EWOULDBLOCK), .handleWrite (.wrote 2),
    .sendInLoop (ascii "e") (.wrote 0), .handleWrite (.failed .EWOULDBLOCK),
    .handleWrite (.wrote 2)]

set_option maxRecDepth 20000 in
theorem output_intact_iff_cut : ∃ t,
    ((tcpMachine.restrict BlockingWrites).restrict DirectWriteFits).Run
      (.established 7 false false 64) cutAndBlocked t ∧
    t.world.accepted = ascii "aabcde" ∧
    ∀ pre post u, cutAndBlocked = pre ++ post →
      (tcpMachine.restrict BlockingWrites).Run (.established 7 false false 64) pre u →
      OutputIntact u := by
  obtain ⟨t, hrun, haccepted⟩ : ∃ t,
      ((tcpMachine.restrict BlockingWrites).restrict DirectWriteFits).Run
        (.established 7 false false 64) cutAndBlocked t ∧ t.world.accepted = ascii "aabcde" :=
    ⟨_, .of_play rfl, rfl⟩
  exact ⟨t, hrun, haccepted, (output_intact_iff (TcpRun.established_fresh 7 false false 64)
    (by decide) hrun.of_restrict).mpr hrun⟩

set_option maxRecDepth 20000 in
/-- The kernel accepts the first byte of `ab`, and the connection buffers the first byte
again. -/
theorem output_not_intact : ∃ t,
    (tcpMachine.restrict BlockingWrites).Run (.established 7 false false 64)
      [.sendInLoop (ascii "ab") (.wrote 1)] t ∧
    t.world.accepted ++ t.world.outputBuffer.content = ascii "aa" ∧ t.sent = ascii "ab" ∧
    ¬OutputIntact t := by
  obtain ⟨t, hrun, hout, hs⟩ : ∃ t,
      (tcpMachine.restrict BlockingWrites).Run (.established 7 false false 64)
        [.sendInLoop (ascii "ab") (.wrote 1)] t ∧
      t.world.accepted ++ t.world.outputBuffer.content = ascii "aa" ∧ t.sent = ascii "ab" :=
    ⟨_, .of_play rfl, rfl, rfl⟩
  refine ⟨t, hrun, hout, hs, fun hi => ?_⟩
  rw [OutputIntact, hout, hs] at hi
  revert hi
  decide

end Tmuduo
