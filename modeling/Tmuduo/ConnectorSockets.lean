import Tmuduo.Connector

/-!
# What becomes of the connector's sockets

The descriptor of an attempt goes from `connect` to `connecting`, then to a handler of its channel
or to `stopInLoop`, and from there to `retry`, to the new connection or to `close`. `SocketInv`
counts, for each descriptor, in how many of these places it is. `connector_sockets_accounted` : in
every run it is in exactly one, and an attempt is in flight if and only if `state_` is
`kConnecting`.
-/

set_option autoImplicit false

namespace Tmuduo

namespace ConnectorWorld

variable {w u : ConnectorWorld}

/-- The number of channels that were removed from the loop and are not reset yet. -/
def unregistered (w : ConnectorWorld) : ℕ :=
  match w.channel with
  | some ch => if ch.addedToLoop then 0 else 1
  | none => 0

/-- A descriptor that was obtained is in one place. `resets` : a `resetChannel` is pending for a
channel that was removed, and for no other. `sessions` : a connection that was delivered and was
not followed by a `restart` is there in the state `kConnected` only. -/
structure SocketInv (w : ConnectorWorld) : Prop where
  attempt : w.state = .kConnecting ↔ w.inFlight ≠ []
  resets : w.functors.count .resetChannel = w.unregistered
  once : ∀ n, w.closed.count n + w.delivered.count n + w.inFlight.count n =
    if 0 ≤ n ∧ n < w.obtained then 1 else 0
  sessions : w.delivered.length = w.restarts ∨
    (w.delivered.length = w.restarts + 1 ∧ w.state = .kConnected)

/-! ## One attempt -/

theorem inFlight_of_none (h : w.channel = none) : w.inFlight = [] := by
  rw [inFlight, h]

theorem inFlight_of_added {ch : Channel} (h : w.channel = some ch)
    (hadded : ch.addedToLoop = true) : w.inFlight = [ch.fd] := by
  rw [inFlight, h]
  exact if_pos hadded

/-- The socket in flight is that of the registered channel. -/
theorem mem_inFlight {n : ℤ} : n ∈ w.inFlight ↔
    ∃ ch, w.channel = some ch ∧ ch.addedToLoop = true ∧ ch.fd = n := by
  unfold inFlight
  cases w.channel with
  | none => simp
  | some ch =>
    by_cases hadded : ch.addedToLoop = true
    · simp only [hadded, if_true, List.mem_singleton]
      exact ⟨fun h => ⟨ch, rfl, hadded, h.symm⟩, by rintro ⟨_, ⟨⟩, -, rfl⟩; rfl⟩
    · simp only [hadded]
      exact iff_of_false List.not_mem_nil (by rintro ⟨_, ⟨⟩, h, -⟩; exact hadded h)

/-- A channel is registered, or was removed and is not reset yet. -/
theorem length_inFlight_add_unregistered :
    w.inFlight.length + w.unregistered = if w.channel = none then 0 else 1 := by
  unfold inFlight unregistered
  cases w.channel with
  | none => rfl
  | some ch => cases hadded : ch.addedToLoop <;> simp [hadded]

theorem length_inFlight_add_unregistered_le : w.inFlight.length + w.unregistered ≤ 1 := by
  rw [length_inFlight_add_unregistered]
  split_ifs
  · exact Nat.zero_le 1
  · exact Nat.le_refl 1

/-- There is no channel exactly when none is in flight and none waits for its reset. -/
theorem channel_eq_none_iff : w.channel = none ↔ w.inFlight = [] ∧ w.unregistered = 0 := by
  have hsum := length_inFlight_add_unregistered (w := w)
  rw [← List.length_eq_zero_iff]
  split_ifs at hsum with hnone
  · simp only [hnone, true_iff]
    omega
  · simp only [hnone, false_iff]
    omega

theorem exists_channel_of_inFlight (h : w.inFlight ≠ []) :
    ∃ ch, w.channel = some ch ∧ ch.addedToLoop = true := by
  obtain ⟨n, hn⟩ := List.exists_mem_of_ne_nil _ h
  obtain ⟨ch, hch, hadded, -⟩ := mem_inFlight.mp hn
  exact ⟨ch, hch, hadded⟩

namespace SocketInv

theorem new : SocketInv .new where
  attempt := by decide
  resets := rfl
  once n := by
    rw [if_neg (by simp only [ConnectorWorld.new]; omega)]
    rfl
  sessions := .inl rfl

/-- Fields that the accounts do not read, and functors other than `resetChannel`, may change. -/
theorem frame (h : w.SocketInv) (hstate : u.state = w.state) (hchannel : u.channel = w.channel)
    (hfunctors : u.functors.count .resetChannel = w.functors.count .resetChannel)
    (hclosed : u.closed = w.closed) (hdelivered : u.delivered = w.delivered)
    (hobtained : u.obtained = w.obtained) (hrestarts : u.restarts = w.restarts) :
    u.SocketInv := by
  have hflight : u.inFlight = w.inFlight := by rw [inFlight, hchannel, inFlight]
  have hunregistered : u.unregistered = w.unregistered := by
    rw [unregistered, hchannel, unregistered]
  exact ⟨by rw [hstate, hflight]; exact h.attempt,
    by rw [hfunctors, hunregistered]; exact h.resets,
    by rw [hclosed, hdelivered, hflight, hobtained]; exact h.once,
    by rw [hdelivered, hrestarts, hstate]; exact h.sessions⟩

/-- A new socket has one place. -/
theorem of_obtained (h : w.SocketInv) (hobtained : u.obtained = w.obtained + 1)
    (hresets : u.functors.count .resetChannel = u.unregistered)
    (hattempt : u.state = .kConnecting ↔ u.inFlight ≠ []) (hup : w.state ≠ .kConnected)
    (hdelivered : u.delivered = w.delivered) (hrestarts : u.restarts = w.restarts)
    (hplace : ∀ n, u.closed.count n + u.inFlight.count n =
      w.closed.count n + w.inFlight.count n + if (w.obtained : ℤ) = n then 1 else 0) :
    u.SocketInv := by
  refine ⟨hattempt, hresets, fun n => ?_, .inl ?_⟩
  · have honce := h.once n
    have hplace := hplace n
    rw [hdelivered, hobtained]
    split_ifs at honce hplace ⊢ <;> omega
  · rw [hdelivered, hrestarts]
    exact h.sessions.resolve_right fun hsession => hup hsession.2

/-- Outside `kConnecting` none is in flight. -/
theorem inFlight_eq_nil (h : w.SocketInv) (hstate : w.state ≠ .kConnecting) : w.inFlight = [] :=
  by_contra fun hne => hstate (h.attempt.mpr hne)

/-- The socket of a new attempt is in flight, or closed at once. -/
theorem begun (h : w.SocketInv) (hstate : w.state = .kDisconnected) (hu : w.Begun u) :
    u.SocketInv := by
  have hup : w.state ≠ .kConnected := by
    rw [hstate]
    decide
  have hflight : w.inFlight = [] := h.inFlight_eq_nil (by rw [hstate]; decide)
  cases hu with
  | connecting hnone =>
    refine h.of_obtained rfl ?_ (by simp [inFlight, Channel.enableWriting, Channel.update]) hup rfl
      rfl fun n => ?_
    · have hresets := h.resets
      rw [unregistered, hnone] at hresets
      exact hresets
    · rw [hflight]
      change w.closed.count n + [(w.obtained : ℤ)].count n = _
      simp [List.count_singleton]
  | retry =>
    rw [retry_eq]
    refine h.of_obtained rfl h.resets ?_ hup rfl rfl fun n => ?_
    · have hdown : ConnectorState.kDisconnected ≠ .kConnecting := by decide
      exact iff_of_false hdown (not_not.mpr hflight)
    · change (w.closed ++ [(w.obtained : ℤ)]).count n + w.inFlight.count n = _
      rw [List.count_append, List.count_singleton]
      simp only [beq_iff_eq]
      omega
  | closed =>
    refine h.of_obtained rfl h.resets ?_ hup rfl rfl fun n => ?_
    · exact h.attempt
    · change (w.closed ++ [(w.obtained : ℤ)]).count n + w.inFlight.count n = _
      rw [List.count_append, List.count_singleton]
      simp only [beq_iff_eq]
      omega

/-- The socket of the attempt moves on to one other place. -/
theorem of_withdrawn (h : w.SocketInv) {ch : Channel} (hch : w.channel = some ch)
    (hstate : w.state = .kConnecting) (hdown : u.state ≠ .kConnecting)
    (hchannel : u.channel = some ch.removed)
    (hfunctors : u.functors = w.functors ++ [.resetChannel]) (hobtained : u.obtained = w.obtained)
    (hplace : ∀ n, u.closed.count n + u.delivered.count n =
      w.closed.count n + w.delivered.count n + if ch.fd = n then 1 else 0)
    (hsessions : w.delivered.length = w.restarts → u.delivered.length = u.restarts ∨
      (u.delivered.length = u.restarts + 1 ∧ u.state = .kConnected)) :
    u.SocketInv := by
  obtain ⟨ch', hch', hadded⟩ := exists_channel_of_inFlight (h.attempt.mp hstate)
  obtain rfl := Option.some.inj (hch.symm.trans hch')
  have hflight : u.inFlight = [] := by
    rw [inFlight, hchannel]
    rfl
  refine ⟨iff_of_false hdown (not_not.mpr hflight), ?_, fun n => ?_, hsessions ?_⟩
  · have hresets := h.resets
    rw [unregistered, hch] at hresets
    simp only [hadded, if_true] at hresets
    rw [hfunctors, List.count_append, hresets, unregistered, hchannel]
    rfl
  · have honce := h.once n
    have hplace := hplace n
    rw [inFlight_of_added hch hadded, List.count_singleton] at honce
    simp only [beq_iff_eq] at honce
    rw [hflight, hobtained, List.count_nil]
    omega
  · refine h.sessions.resolve_right fun hsession => ?_
    exact absurd (hstate.symm.trans hsession.2) (by decide)

/-- The socket of the attempt that ends is closed or delivered. -/
theorem ended (h : w.SocketInv) {ch : Channel} (hch : w.channel = some ch)
    (hstate : w.state = .kConnecting) (hu : w.Ended ch u) : u.SocketInv := by
  have hcount : ∀ (l : List ℤ) n, (l ++ [ch.fd]).count n = l.count n + if ch.fd = n then 1 else 0 :=
    fun l n => by simp [List.count_append, List.count_singleton]
  have hdown : ConnectorState.kDisconnected ≠ .kConnecting := by decide
  have hup : ConnectorState.kConnected ≠ .kConnecting := by decide
  cases hu with
  | retry =>
    rw [retry_eq]
    refine h.of_withdrawn hch hstate hdown rfl rfl rfl (fun n => ?_) .inl
    change (w.closed ++ [ch.fd]).count n + w.delivered.count n = _
    rw [hcount]
    omega
  | delivered hconnect =>
    refine h.of_withdrawn hch hstate hup rfl rfl rfl (fun n => ?_) fun hsession => .inr ⟨?_, rfl⟩
    · change w.closed.count n + (w.delivered ++ [ch.fd]).count n = _
      rw [hcount]
      omega
    · change (w.delivered ++ [ch.fd]).length = w.restarts + 1
      rw [List.length_append, hsession, List.length_singleton]
  | closed hconnect =>
    refine h.of_withdrawn hch hstate hup rfl rfl rfl (fun n => ?_) .inl
    change (w.closed ++ [ch.fd]).count n + w.delivered.count n = _
    rw [hcount]
    omega

/-! ## Every run -/

theorem startInLoop (h : w.SocketInv) {savedErrno : ConnectErrno}
    (hu : w.startInLoop savedErrno = .ok u) : u.SocketInv := by
  obtain ⟨hstate, rfl | hbegun⟩ := startInLoop_cases hu
  · exact h
  · exact h.begun hstate hbegun

theorem stopInLoop (h : w.SocketInv) (hu : w.stopInLoop = .ok u) : u.SocketInv := by
  obtain ⟨-, rfl⟩ | ⟨hstate, ch, hch, -, rfl⟩ := stopInLoop_cases hu
  · exact h
  · exact h.ended hch hstate .retry

theorem start (h : w.SocketInv) {inLoop : Bool} {savedErrno : ConnectErrno}
    (hu : w.start inLoop savedErrno = .ok u) : u.SocketInv := by
  unfold ConnectorWorld.start at hu
  simp only at hu
  split_ifs at hu
  · exact (h.frame (u := { w with connect_ := true }) rfl rfl rfl rfl rfl rfl rfl).startInLoop hu
  · obtain rfl := Except.ok.inj hu
    exact h.frame rfl rfl (by simp [queueInLoop]) rfl rfl rfl rfl

theorem stop (h : w.SocketInv) {inLoop : Bool} (hu : w.stop inLoop = .ok u) : u.SocketInv := by
  unfold ConnectorWorld.stop at hu
  simp only at hu
  split_ifs at hu
  · exact (h.frame (u := { w with connect_ := false }) rfl rfl rfl rfl rfl rfl rfl).stopInLoop hu
  · obtain rfl := Except.ok.inj hu
    exact h.frame rfl rfl (by simp [queueInLoop]) rfl rfl rfl rfl

/-- A connection that was delivered is not in flight. -/
theorem connected_of_restart (h : w.SocketInv) (hrestarts : w.restarts < w.delivered.length) :
    w.delivered.length = w.restarts + 1 ∧ w.state = .kConnected :=
  h.sessions.resolve_left (by omega)

/-- A `restart` is that of the one connection that was delivered. -/
theorem restart (h : w.SocketInv) {savedErrno : ConnectErrno}
    (hrestarts : w.restarts < w.delivered.length) (hu : w.restart savedErrno = .ok u) :
    u.SocketInv := by
  obtain ⟨hlength, hstate⟩ := h.connected_of_restart hrestarts
  have hflight : w.inFlight = [] := h.inFlight_eq_nil (by rw [hstate]; decide)
  have hdown : ConnectorState.kDisconnected ≠ .kConnecting := by decide
  refine startInLoop (w := { w with
    state := .kDisconnected
    retryDelayMs := Connector.kInitRetryDelayMs
    connect_ := true
    restarts := w.restarts + 1 }) ?_ hu
  exact ⟨iff_of_false hdown (not_not.mpr hflight), h.resets, h.once, .inl hlength⟩

/-- The channel that is reset is not registered. -/
theorem resetChannel (h : w.SocketInv) {functors : List ConnectorFunctor}
    (hfunctors : w.functors = .resetChannel :: functors) :
    (ConnectorWorld.resetChannel { w with functors := functors }).SocketInv := by
  have hresets := h.resets
  rw [hfunctors, List.count_cons_self] at hresets
  have hle := length_inFlight_add_unregistered_le (w := w)
  have hflight : w.inFlight = [] := List.length_eq_zero_iff.mp (by omega)
  refine ⟨?_, ?_, fun n => ?_, h.sessions⟩
  · have hattempt := h.attempt
    rw [hflight] at hattempt
    exact hattempt
  · change functors.count .resetChannel = 0
    omega
  · have honce := h.once n
    rw [hflight] at honce
    exact honce

theorem runFunctor (h : w.SocketInv) {savedErrno : ConnectErrno} {f : ConnectorFunctor}
    {functors : List ConnectorFunctor} (hfunctors : w.functors = f :: functors)
    (hu : ConnectorWorld.runFunctor { w with functors := functors } savedErrno f = .ok u) :
    u.SocketInv := by
  have hcount : f ≠ .resetChannel →
      functors.count .resetChannel = w.functors.count .resetChannel := fun hne => by
    rw [hfunctors, List.count_cons_of_ne hne]
  cases f with
  | startInLoop =>
    have hrest : SocketInv { w with functors := functors } :=
      h.frame rfl rfl (hcount (by decide)) rfl rfl rfl rfl
    exact hrest.startInLoop hu
  | stopInLoop =>
    have hrest : SocketInv { w with functors := functors } :=
      h.frame rfl rfl (hcount (by decide)) rfl rfl rfl rfl
    exact hrest.stopInLoop hu
  | resetChannel =>
    obtain rfl := Except.ok.inj hu
    exact h.resetChannel hfunctors

theorem runTask (h : w.SocketInv) {err isSelfConnect : Bool} {task : ConnectorTask}
    (hu : w.runTask err isSelfConnect task = .ok u) : u.SocketInv := by
  cases task with
  | handleError =>
    obtain ⟨hstate, ch, hch, -, rfl⟩ := handleError_cases hu
    exact h.ended hch hstate .retry
  | handleWrite =>
    obtain ⟨-, rfl⟩ | ⟨hstate, ch, hch, -, hended⟩ := handleWrite_cases hu
    · exact h
    · exact h.ended hch hstate hended

/-- The accounts do not read the batch. -/
theorem of_batch (h : w.SocketInv) (batch : LoopBatch) : SocketInv { w with batch := batch } :=
  h.frame rfl rfl rfl rfl rfl rfl rfl

/-- What one step of the machine keeps. -/
theorem step {l : ConnectorStep} (h : w.SocketInv) (he : connectorMachine.enabled w l)
    (hx : connectorMachine.exec w l = .ok u) : u.SocketInv := by
  cases l with
  | start inLoop savedErrno => exact h.start hx
  | stop inLoop => exact h.stop hx
  | restart savedErrno => exact h.restart he.2 hx
  | timer i savedErrno =>
    have hrest : SocketInv { w with timers := w.timers.eraseIdx i } :=
      h.frame rfl rfl rfl rfl rfl rfl rfl
    exact hrest.startInLoop hx
  | runFunctor savedErrno =>
    simp only [connectorMachine] at hx
    split at hx
    · obtain rfl := Except.ok.inj hx
      exact h
    · next f functors hfunctors => exact h.runFunctor hfunctors hx
  | runTask err isSelfConnect =>
    simp only [connectorMachine] at hx
    split at hx
    · obtain rfl := Except.ok.inj hx
      exact h
    · exact (h.of_batch _).runTask hx
  | poll | handle | endBatch =>
    obtain rfl := Except.ok.inj hx
    exact h.of_batch _

end SocketInv

/-- Each descriptor that was obtained is closed, delivered or that of the attempt in flight, one of
these only and once, and no other descriptor is. An attempt is in flight in the state `kConnecting`
only. -/
structure SocketsAccounted (w : ConnectorWorld) : Prop where
  place : ∀ n : ℤ, 0 ≤ n → n < w.obtained →
    (w.closed.count n = 1 ∧ n ∉ w.delivered ∧ n ∉ w.inFlight) ∨
    (n ∉ w.closed ∧ w.delivered.count n = 1 ∧ n ∉ w.inFlight) ∨
    (n ∉ w.closed ∧ n ∉ w.delivered ∧ w.inFlight = [n])
  known : ∀ n ∈ w.closed ++ w.delivered ++ w.inFlight, 0 ≤ n ∧ n < w.obtained
  attempt : w.state = .kConnecting ↔ ∃ n, w.inFlight = [n]

/-- The counts say in which one place a descriptor is. -/
theorem SocketInv.accounted (h : w.SocketInv) : w.SocketsAccounted := by
  have hcases : w.inFlight = [] ∨ ∃ n, w.inFlight = [n] := by
    have hle := length_inFlight_add_unregistered_le (w := w)
    rcases Nat.le_one_iff_eq_zero_or_eq_one.mp (Nat.le_of_add_right_le hle) with hzero | hone
    · exact .inl (List.length_eq_zero_iff.mp hzero)
    · exact .inr (List.length_eq_one_iff.mp hone)
  refine ⟨fun n hn hlt => ?_, fun n hmem => ?_, ?_⟩
  · have honce := h.once n
    rw [if_pos ⟨hn, hlt⟩] at honce
    have hflight : n ∈ w.inFlight → w.inFlight = [n] := fun hmem => by
      rcases hcases with hnil | ⟨m, hm⟩
      · rw [hnil] at hmem
        cases hmem
      · rw [hm] at hmem ⊢
        rw [List.mem_singleton.mp hmem]
    simp only [← List.count_eq_zero]
    by_cases hmem : n ∈ w.inFlight
    · have hpos := List.count_pos_iff.mpr hmem
      exact .inr (.inr ⟨by omega, by omega, hflight hmem⟩)
    · have hzero := List.count_eq_zero.mpr hmem
      omega
  · by_contra hout
    have honce := h.once n
    rw [if_neg hout] at honce
    have hpos := List.count_pos_iff.mpr hmem
    rw [List.count_append, List.count_append] at hpos
    omega
  · rw [h.attempt]
    rcases hcases with hnil | ⟨n, hn⟩
    · rw [hnil]
      exact iff_of_false (fun hne => hne rfl) nofun
    · rw [hn]
      exact iff_of_true (List.cons_ne_nil _ _) ⟨n, rfl⟩

end ConnectorWorld

/-- In every run of a connector, as far as no assertion fails, each descriptor that it obtained is
closed once, delivered once or that of the one attempt in flight, and an attempt is in flight if
and only if `state_` is `kConnecting`. -/
theorem connector_sockets_accounted {ls : List ConnectorStep} {t : ConnectorWorld}
    (hrun : connectorMachine.Run .new ls t) : t.SocketsAccounted := by
  have hinv : t.SocketInv := hrun.invariant .new fun _ _ _ h he hx => h.step he hx
  exact hinv.accounted

/-- The first attempt is refused, the second fails after a while, the third is delivered. -/
theorem connector_sockets_accounted_third : ∃ t,
    connectorMachine.Run .new
      [.start true .ECONNREFUSED, .poll [none], .handle false false, .timer 0 .EINPROGRESS,
        .endBatch, .poll [some 1], .handle true true, .runTask true false, .runTask false false,
        .endBatch, .runFunctor .other, .poll [none], .handle false false, .timer 0 .EINPROGRESS,
        .endBatch, .poll [some 2], .handle false true, .runTask false false] t ∧
    t.SocketsAccounted ∧ t.obtained = 3 ∧ t.closed = [0, 1] ∧ t.delivered = [2] := by
  have hrun : connectorMachine.Run .new
      [.start true .ECONNREFUSED, .poll [none], .handle false false, .timer 0 .EINPROGRESS,
        .endBatch, .poll [some 1], .handle true true, .runTask true false, .runTask false false,
        .endBatch, .runFunctor .other, .poll [none], .handle false false, .timer 0 .EINPROGRESS,
        .endBatch, .poll [some 2], .handle false true, .runTask false false] _ := .of_play rfl
  exact ⟨_, hrun, connector_sockets_accounted hrun, rfl, rfl, rfl⟩

end Tmuduo
