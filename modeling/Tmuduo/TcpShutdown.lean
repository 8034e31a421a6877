import Tmuduo.TcpOutput

/-!
# Graceful shutdown

`shutdownInLoop` looks only at the channel's write interest. `GracefulInv` is what makes that
enough : the interest mirrors the output buffer, and a connection that anyone has asked to shut
down is disconnecting and stays so, so the drain that empties the buffer shuts the write side
down when `shutdownInLoop` could not.

`graceful_shutdown` states it for every run from `connectionEstablished` on : the write side
is never shut down with output unsent, and no shutdown is lost.
-/

set_option autoImplicit false

namespace Tmuduo

/-- Some call asked for the shutdown, or its functor is queued, or has run. -/
def ShutdownAsked (s : TcpRun) : Prop :=
  s.shutdownRan = true ∨ s.world.callers ≠ [] ∨
    ∃ k, TcpFunctor.shutdownInLoop k ∈ s.world.pendingFunctors

theorem ShutdownAsked.mono {s u : TcpRun} (h : ShutdownAsked u)
    (hran : u.shutdownRan = s.shutdownRan) (hcallers : u.world.callers = s.world.callers)
    (hfunctors : ∀ k, .shutdownInLoop k ∈ u.world.pendingFunctors →
      .shutdownInLoop k ∈ s.world.pendingFunctors) : ShutdownAsked s := by
  rcases h with hr | hc | ⟨k, hk⟩
  · exact Or.inl (hran ▸ hr)
  · exact Or.inr (Or.inl (hcallers ▸ hc))
  · exact Or.inr (Or.inr ⟨k, hfunctors k hk⟩)

/-- The invariant of a connection between `connectionEstablished` and `handleClose`. -/
structure GracefulInv (s : TcpRun) : Prop where
  state : s.world.state = .kConnected ∨ s.world.state = .kDisconnecting
  writing : s.world.channel.isWriting = !s.world.outputBuffer.content.isEmpty
  drained : ∀ unsent ∈ s.world.shutdownWrites, unsent = []
  ran : s.shutdownRan = true → s.world.channel.isWriting = true ∨ s.world.shutdownWrites ≠ []
  asked : ShutdownAsked s → s.world.state = .kDisconnecting
  callers : ∀ call ∈ s.world.callers, call.2 = .kConnected ∨ call.2 = .kDisconnecting

theorem GracefulInv.live {s : TcpRun} (h : GracefulInv s) :
    s.world.state ≠ .kDisconnected := by
  rcases h.state with hs | hs <;> simp [hs]

theorem GracefulInv.established (sockfd : ℤ) (writeComplete highWater : Bool) (mark : ℕ) :
    GracefulInv (.established sockfd writeComplete highWater mark) := by
  have hf := TcpRun.established_fresh sockfd writeComplete highWater mark
  refine ⟨Or.inl rfl, by rw [hf.writing, hf.content]; rfl, ?_, ?_, ?_, ?_⟩
  · simp [TcpRun.established, TcpWorld.new]
  · simp [TcpRun.established]
  · simp [ShutdownAsked, TcpRun.established, TcpWorld.new]
  · simp [TcpRun.established, TcpWorld.new]

/-! ## The steps -/

/-- `shutdownInLoop` under the invariant : the write side is shut down with nothing unsent, or
the channel is writing. -/
theorem shutdownInLoop_graceful {c : TcpWorld}
    (hw : c.channel.isWriting = !c.outputBuffer.content.isEmpty)
    (hd : ∀ unsent ∈ c.shutdownWrites, unsent = []) :
    (∀ unsent ∈ c.shutdownInLoop.shutdownWrites, unsent = []) ∧
      (c.channel.isWriting = true ∨ c.shutdownInLoop.shutdownWrites ≠ []) := by
  cases hc : c.channel.isWriting with
  | true => exact ⟨by simpa [TcpWorld.shutdownInLoop, hc] using hd, Or.inl rfl⟩
  | false =>
    have hnil : c.outputBuffer.content = [] := by simpa [hc] using hw
    have hlog : c.shutdownInLoop.shutdownWrites = c.shutdownWrites ++ [[]] := by
      simp [TcpWorld.shutdownInLoop, TcpWorld.shutdownWrite, hc, hnil]
    rw [hlog]
    refine ⟨fun unsent hmem => ?_, Or.inr (by simp)⟩
    rcases List.mem_append.mp hmem with hmem | hmem
    · exact hd unsent hmem
    · exact List.mem_singleton.mp hmem

/-- Running `shutdownInLoop` on a disconnecting connection, for whichever call. -/
theorem GracefulInv.shutdownInLoop {s : TcpRun} (h : GracefulInv s)
    (hclosing : s.world.state = .kDisconnecting) (ran : Bool) :
    GracefulInv
      { s with world := s.world.shutdownInLoop, shutdownRan := s.shutdownRan || ran } := by
  obtain ⟨hdrained, hran⟩ := shutdownInLoop_graceful h.writing h.drained
  refine ⟨Or.inr (by simpa using hclosing), by simpa using h.writing, hdrained, ?_, ?_, ?_⟩
  · intro _
    simpa using hran
  · intro _
    simpa using hclosing
  · simpa only [TcpWorld.shutdownInLoop_callers] using h.callers

/-- Queueing a functor on a disconnecting connection. -/
theorem GracefulInv.queue {s : TcpRun} (h : GracefulInv s)
    (hclosing : s.world.state = .kDisconnecting) (f : TcpFunctor) :
    GracefulInv { s with world := s.world.queueIf true f } := by
  refine ⟨Or.inr (by simpa using hclosing), by simpa using h.writing, by simpa using h.drained,
    by simpa using h.ran, fun _ => by simpa using hclosing, ?_⟩
  simpa only [TcpWorld.queueIf_callers] using h.callers

theorem GracefulInv.finishCall {s : TcpRun} (h : GracefulInv s)
    (hclosing : s.world.state = .kDisconnecting) {call : Caller × StateE}
    (hold : call.2 = .kConnected ∨ call.2 = .kDisconnecting) (inLoop : Bool) :
    GracefulInv (s.finishCall inLoop call) := by
  obtain ⟨caller, old⟩ := call
  cases caller with
  | shutdown =>
    unfold TcpRun.finishCall TcpWorld.afterShutdown
    simp only
    split_ifs with hc hl
    · simpa [hc, hl] using h.shutdownInLoop hclosing true
    · simpa [hc, hl] using h.queue hclosing (.shutdownInLoop .shutdown)
    · have hflag : (old == .kConnected && inLoop) = false := by simp [hc]
      rw [hflag, Bool.or_false]
      exact h
  | forceClose =>
    unfold TcpRun.finishCall TcpWorld.afterForceClose
    simp only
    rw [if_pos hold]
    exact h.queue hclosing (.shutdownInLoop .forceClose)

theorem GracefulInv.send {s : TcpRun} {c : TcpWorld} {kernel rest : Bytes} (h : GracefulInv s)
    (hs : TcpWorld.Sent s.world c kernel rest) (message : Bytes) :
    GracefulInv { s with world := c, sent := s.sent ++ message } := by
  refine ⟨by simpa [hs.state] using h.state, ?_, by simpa [hs.shutdownWrites] using h.drained,
    ?_, ?_, by simpa only [hs.callers] using h.callers⟩
  · cases hx : s.world.outputBuffer.content <;> simp [hs.writing, hs.content, h.writing, hx]
  · intro hr
    rcases h.ran hr with hw | hw
    · exact Or.inl (by simp [hs.writing, hw])
    · exact Or.inr (by simpa [hs.shutdownWrites] using hw)
  · intro hasked
    simpa only [hs.state] using h.asked (hasked.mono rfl hs.callers hs.functors)

/-- The drain that empties the buffer shuts the write side down, if that was asked for. -/
theorem GracefulInv.drain {s : TcpRun} {c : TcpWorld} {n : ℕ} (h : GracefulInv s)
    (hd : TcpWorld.Drained s.world c n) : GracefulInv { s with world := c } := by
  refine ⟨by simpa [hd.state] using h.state, by simp only [hd.writing, hd.content], ?_, ?_, ?_,
    by simpa only [hd.callers] using h.callers⟩
  · simp only [hd.shutdownWrites]
    intro unsent hmem
    rcases List.mem_append.mp hmem with hmem | hmem
    · exact h.drained unsent hmem
    · split_ifs at hmem
      · exact List.mem_singleton.mp hmem
      · cases hmem
  · intro hr
    have hclosing := h.asked (Or.inl hr)
    simp only [hd.writing, hd.shutdownWrites, hclosing, and_true]
    cases hnil : s.world.outputBuffer.content.drop n with
    | nil => exact Or.inr (by simp)
    | cons x xs => exact Or.inl rfl
  · intro hasked
    simpa only [hd.state] using h.asked (hasked.mono rfl hd.callers hd.functors)

theorem GracefulInv.functor {s : TcpRun} {f : TcpFunctor} {rest : List TcpFunctor}
    (h : GracefulInv s) (hf : s.world.pendingFunctors = f :: rest) :
    GracefulInv
      (TcpRun.callFunctor { s with world := { s.world with pendingFunctors := rest } } f) := by
  have hsub : ∀ k, TcpFunctor.shutdownInLoop k ∈ rest →
      TcpFunctor.shutdownInLoop k ∈ s.world.pendingFunctors := by
    intro k hk
    rw [hf]
    exact List.mem_cons_of_mem f hk
  have hrest : GracefulInv { s with world := { s.world with pendingFunctors := rest } } :=
    ⟨h.state, h.writing, h.drained, h.ran, fun hasked => h.asked (hasked.mono rfl rfl hsub),
      h.callers⟩
  cases f with
  | shutdownInLoop caller =>
    have hclosing := h.asked (Or.inr (Or.inr ⟨caller, by rw [hf]; exact List.mem_cons_self⟩))
    exact hrest.shutdownInLoop hclosing _
  | writeComplete => exact hrest
  | highWaterMark len => exact hrest

theorem GracefulInv.step {s u : TcpRun} {l : TcpStep} (h : GracefulInv s)
    (hstep : TcpStepped s l u) : GracefulInv u := by
  cases hstep with
  | send _ hs => exact h.send hs _
  | blocked => exact h
  | drain _ hd => exact h.drain hd
  | read => exact ⟨h.state, h.writing, h.drained, h.ran, h.asked, h.callers⟩
  | exchange caller =>
    refine ⟨Or.inr rfl, h.writing, h.drained, h.ran, fun _ => rfl, fun call hcall => ?_⟩
    rcases List.mem_append.mp hcall with hcall | hcall
    · exact h.callers call hcall
    · rw [List.mem_singleton.mp hcall]
      exact h.state
  | @finish i call inLoop hcall =>
    have hclosing := h.asked (Or.inr (Or.inl (List.ne_nil_of_mem hcall)))
    have hrest : GracefulInv
        { s with world := { s.world with callers := s.world.callers.eraseIdx i } } :=
      ⟨h.state, h.writing, h.drained, h.ran, fun _ => hclosing,
        fun call' hmem => h.callers call' (List.mem_of_mem_eraseIdx hmem)⟩
    exact hrest.finishCall hclosing (h.callers call hcall) inLoop
  | functor hf => exact h.functor hf

/-! ## Every run -/

theorem GracefulInv.run {sockfd : ℤ} {writeComplete highWater : Bool} {mark : ℕ}
    {ls : List TcpStep} {t : TcpRun}
    (hrun : tcpMachine.Run (.established sockfd writeComplete highWater mark) ls t) :
    GracefulInv t :=
  hrun.invariant (.established sockfd writeComplete highWater mark)
    fun _ _ _ hs he hx => hs.step (.of_exec hs.live he hx)

/-- No assertion fails between `connectionEstablished` and the end of the connection. -/
theorem tcpMachine_safe (sockfd : ℤ) (writeComplete highWater : Bool) (mark : ℕ) :
    tcpMachine.Safe (.established sockfd writeComplete highWater mark) :=
  fun _ _ _ hrun he => tcpMachine_exec_ok (GracefulInv.run hrun).live he

/-- In every run from `connectionEstablished` on, the channel is writing exactly while output
is buffered, the write side is shut down only with nothing unsent, and once the
`shutdownInLoop` of a `shutdown()` that found the connection connected has run, an empty output
buffer means the write side is shut down. -/
theorem graceful_shutdown {sockfd : ℤ} {writeComplete highWater : Bool} {mark : ℕ}
    {ls : List TcpStep} {t : TcpRun}
    (hrun : tcpMachine.Run (.established sockfd writeComplete highWater mark) ls t) :
    (t.world.channel.isWriting = true ↔ 0 < t.world.outputBuffer.readableBytes) ∧
      (∀ unsent ∈ t.world.shutdownWrites, unsent = []) ∧
      (t.shutdownRan = true → t.world.outputBuffer.readableBytes = 0 →
        t.world.shutdownWrites ≠ []) := by
  have h := GracefulInv.run hrun
  have hzero := t.world.outputBuffer.readableBytes_eq_zero_iff
  refine ⟨?_, h.drained, fun hr hz => ?_⟩
  · rw [h.writing, Nat.pos_iff_ne_zero, ne_eq, hzero]
    simp
  · rcases h.ran hr with hw | hw
    · rw [h.writing, hzero.mp hz] at hw
      cases hw
    · exact hw

set_option maxRecDepth 20000 in
/-- `shutdown()` of another thread while output is pending. `shutdownInLoop` finds the channel
writing and does nothing, and the drain shuts the write side down. -/
theorem graceful_shutdown_pending : ∃ t u,
    tcpMachine.Run (.established 7 false false 64)
      [.sendInLoop (ascii "ab") (.failed .EWOULDBLOCK), .exchange .shutdown, .finish 0 false,
        .runFunctor] t ∧
    t.shutdownRan = true ∧ t.world.channel.isWriting = true ∧ t.world.shutdownWrites = [] ∧
    tcpMachine.Run t [.handleWrite (.wrote 1), .handleWrite (.wrote 1)] u ∧
    u.world.outputBuffer.readableBytes = 0 ∧ u.world.shutdownWrites ≠ [] ∧
    ∀ unsent ∈ u.world.shutdownWrites, unsent = [] := by
  obtain ⟨t, u, ht, hran, hnone, hu, hran', hempty⟩ : ∃ t u,
      tcpMachine.Run (.established 7 false false 64)
        [.sendInLoop (ascii "ab") (.failed .EWOULDBLOCK), .exchange .shutdown, .finish 0 false,
          .runFunctor] t ∧
      t.shutdownRan = true ∧ t.world.shutdownWrites = [] ∧
      tcpMachine.Run t [.handleWrite (.wrote 1), .handleWrite (.wrote 1)] u ∧
      u.shutdownRan = true ∧ u.world.outputBuffer.readableBytes = 0 :=
    ⟨_, _, .of_play rfl, rfl, rfl, .of_play rfl, rfl, rfl⟩
  obtain ⟨-, hdrained, hshut⟩ := graceful_shutdown (ht.trans hu)
  refine ⟨t, u, ht, hran, (graceful_shutdown ht).1.mpr ?_, hnone, hu, hempty,
    hshut hran' hempty, hdrained⟩
  by_contra hzero
  exact (graceful_shutdown ht).2.2 hran (Nat.eq_zero_of_not_pos hzero) hnone

end Tmuduo
