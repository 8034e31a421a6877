import Tmuduo.TcpClient

/-!
# The connections of a client

In every run the client uses its connector as `connectorMachine` requires, so what holds of all runs
of the connector holds here. There is one connection at a time (`OneConnection`), and no callback
gets to a client that was destroyed, unless it was destroyed outside its loop
(`exec_error_of_run`). A connection is taken to close once here; the connections themselves come in
with `ClientLives`.

`disconnect` and `stop` both clear `connect_` of the client, and `stop` that of the connector too.
What they prevent is `client_disconnected`. A call of another thread is one step, before or after
`removeConnection` : a `disconnect` or `stop` between its test of `connect_` and `restart` comes too
late to prevent that.
-/

set_option autoImplicit false

namespace Tmuduo

/-! ## The invariant -/

namespace TcpClient

open ConnectorWorld

variable {c d : TcpClient} {u : ConnectorWorld}

/-- The connections whose `connectionDestroyed` is pending. -/
def queued (functors : List ClientFunctor) : List ClientConnection :=
  functors.filterMap fun
    | .connectionDestroyed conn => some conn
    | .setCloseCallback _ => none

/-- `accounted` : a connection is open, then its `connectionDestroyed` is pending, then called.
`sessions` : the connector was restarted only after a connection had closed. `gone` and `replaced`
keep callbacks from a client that was destroyed. -/
structure Inv (c : TcpClient) : Prop where
  sockets : c.connector.SocketInv
  made : c.established.map ClientConnection.sockfd = c.connector.delivered
  accounted : c.destroyed ++ queued c.functors ++ c.opened.map Prod.fst = c.established
  sessions : c.connector.restarts + c.opened.length ≤ c.connector.delivered.length
  current : c.alive = true → c.opened = c.connection.toList.map (·, .removeConnection)
  pending : c.alive = true → ∀ conn, .setCloseCallback conn ∉ c.functors
  gone : c.alive = false → c.connector.state = .kConnected ∨ c.connector.connect_ = false
  replaced : c.alive = false → ∀ p ∈ c.opened,
    p.2 = .detail ∨ .setCloseCallback p.1 ∈ c.functors

theorem withConnector_eq_ok_iff {w : Except ConnectorFault ConnectorWorld} :
    c.withConnector w = .ok d ↔ ∃ u, w = .ok u ∧ d = { c with connector := u } := by
  rw [withConnector, bind_pure_eq_ok_iff]
  simp only [mapError_eq_ok_iff]

theorem map_fst_setCloseCallback (c : TcpClient) (conn : ClientConnection) :
    (c.setCloseCallback conn).opened.map Prod.fst = c.opened.map Prod.fst := by
  rw [setCloseCallback, List.map_map]
  refine List.map_congr_left fun p _ => ?_
  by_cases hp : p.1 = conn <;> simp [hp]

/-- An open connection has the new callback, or is another one. -/
theorem of_mem_setCloseCallback {conn : ClientConnection}
    {p : ClientConnection × ClientCloseCallback} (hp : p ∈ (c.setCloseCallback conn).opened) :
    p.2 = .detail ∨ (p ∈ c.opened ∧ p.1 ≠ conn) := by
  obtain ⟨q, hq, rfl⟩ := List.mem_map.mp hp
  by_cases hconn : q.1 = conn
  · exact .inl (by rw [if_pos hconn])
  · exact .inr (by rw [if_neg hconn]; exact ⟨hq, hconn⟩)

namespace Inv

theorem new (nameArg : Bytes) : Inv (.new nameArg) where
  sockets := .new
  made := rfl
  accounted := rfl
  sessions := Nat.le_refl 0
  current _ := rfl
  pending _ _ := List.not_mem_nil
  gone := nofun
  replaced := nofun

/-- An open connection is the only one, and its connector rests. -/
theorem of_mem_opened (h : c.Inv) {p : ClientConnection × ClientCloseCallback}
    (hp : p ∈ c.opened) : c.opened = [p] ∧
      c.connector.delivered.length = c.connector.restarts + 1 ∧
      c.connector.state = .kConnected := by
  have hpos := List.length_pos_of_mem hp
  have hle := h.sessions
  obtain ⟨hlength, hstate⟩ := h.sockets.connected_of_restart (by omega)
  obtain ⟨q, hq⟩ := List.length_eq_one_iff.mp (by omega : c.opened.length = 1)
  rw [hq, List.mem_singleton] at hp
  exact ⟨by rw [hq, hp], hlength, hstate⟩

/-- While an attempt is in flight no connection is open. -/
theorem opened_eq_nil (h : c.Inv) (hstate : c.connector.state ≠ .kConnected) : c.opened = [] := by
  by_contra hne
  obtain ⟨p, hp⟩ := List.exists_mem_of_ne_nil _ hne
  exact hstate (h.of_mem_opened hp).2.2

/-- The connector goes on and delivers nothing. -/
theorem of_connector (h : c.Inv) (hsockets : u.SocketInv)
    (hdelivered : u.delivered = c.connector.delivered)
    (hrestarts : u.restarts = c.connector.restarts)
    (hgone : c.alive = false → u.state = .kConnected ∨ u.connect_ = false) :
    Inv { c with connector := u } where
  sockets := hsockets
  made := h.made.trans hdelivered.symm
  accounted := h.accounted
  sessions := by
    rw [hdelivered, hrestarts]
    exact h.sessions
  current := h.current
  pending := h.pending
  gone := hgone
  replaced := h.replaced

theorem gone_of_calm (h : c.Inv) (hcalm : Calm c.connector u) (hdead : c.alive = false) :
    u.state = .kConnected ∨ u.connect_ = false := by
  rcases h.gone hdead with hstate | hconnect
  · exact .inl (hcalm.connected hstate)
  · exact .inr (hcalm.connect_.trans hconnect)

/-- A socket is delivered, and the client makes a connection of it. -/
theorem newConnection (h : c.Inv) (hsockets : u.SocketInv)
    (hstate : c.connector.state = .kConnecting) {sockfd : ℤ}
    (hdelivered : u.delivered = c.connector.delivered ++ [sockfd])
    (hrestarts : u.restarts = c.connector.restarts) {peerAddr : InetAddress}
    (hx : TcpClient.newConnection { c with connector := u } sockfd peerAddr = .ok d) : d.Inv := by
  obtain ⟨halive, hx⟩ := check_bind_eq_ok_iff.mp hx
  obtain rfl := Except.ok.inj hx
  have hnone : c.opened = [] := h.opened_eq_nil (by rw [hstate]; decide)
  have haccounted := h.accounted
  have hsessions := h.sessions
  rw [hnone, List.map_nil, List.append_nil] at haccounted
  refine ⟨hsockets, ?_, ?_, ?_, fun _ => ?_, h.pending, ?_, ?_⟩
  · rw [List.map_append, h.made, hdelivered]
    rfl
  · rw [hnone, ← haccounted]
    rfl
  · simp only [hdelivered, hrestarts, List.length_append, hnone] at hsessions ⊢
    simp only [List.length_singleton, List.length_nil] at hsessions ⊢
    omega
  · rw [hnone]
    rfl
  · intro hdead
    cases halive.symm.trans hdead
  · intro hdead
    cases halive.symm.trans hdead

/-- The client goes from `c` to `d`, and its connector makes a run. -/
def Goes (c d : TcpClient) : Prop :=
  d.Inv ∧ ∃ ls, connectorMachine.Run c.connector ls d.connector

theorem connect (h : c.Inv) (halive : c.alive = true) {inLoop : Bool} {savedErrno : ConnectErrno}
    (he : connectorMachine.enabled c.connector (.start inLoop savedErrno))
    (hx : c.connect inLoop savedErrno = .ok d) : Goes c d := by
  obtain ⟨u, hu, rfl⟩ := withConnector_eq_ok_iff.mp hx
  have hrun : connectorMachine.Run c.connector [.start inLoop savedErrno] u := .snoc .nil he hu
  have hcalm := start_calm hu
  have hinv := h.of_connector (h.sockets.of_run hrun) hcalm.delivered hcalm.restarts
    fun hdead => by cases halive.symm.trans hdead
  exact ⟨{ hinv with }, _, hrun⟩

theorem stop (h : c.Inv) {inLoop : Bool}
    (he : connectorMachine.enabled c.connector (.stop inLoop))
    (hu : c.connector.stop inLoop = .ok u) : Goes c { c with connector := u } := by
  have hrun : connectorMachine.Run c.connector [.stop inLoop] u := .snoc .nil he hu
  have hcalm := stop_calm hu
  exact ⟨h.of_connector (h.sockets.of_run hrun) hcalm.delivered hcalm.restarts
    fun _ => .inr hcalm.connect_, _, hrun⟩

theorem loopStep (h : c.Inv) {l : ConnectorStep} {peerAddr : InetAddress} (hl : l.ofLoop = true)
    (he : connectorMachine.enabled c.connector l) (hx : c.loopStep l peerAddr = .ok d) :
    Goes c d := by
  obtain ⟨u, hu, hx⟩ := bind_eq_ok_iff.mp hx
  have hu := mapError_eq_ok_iff.mp hu
  have hrun : connectorMachine.Run c.connector [l] u := .snoc .nil he hu
  have hsockets := h.sockets.of_run hrun
  rcases ofLoop_cases hl hu with hcalm | ⟨hstate, -, hrestarts, -, sockfd, hdelivered⟩
  · have hnone : u.delivered.drop c.connector.delivered.length = [] := by
      rw [hcalm.delivered, List.drop_length]
    simp only [hnone] at hx
    obtain rfl := Except.ok.inj hx
    exact ⟨h.of_connector hsockets hcalm.delivered hcalm.restarts (h.gone_of_calm hcalm), _, hrun⟩
  · have hone : u.delivered.drop c.connector.delivered.length = [sockfd] := by
      rw [hdelivered, List.drop_left]
    simp only [hone] at hx
    refine ⟨h.newConnection hsockets hstate hdelivered hrestarts hx, [l], ?_⟩
    obtain ⟨-, hx⟩ := check_bind_eq_ok_iff.mp hx
    obtain rfl := Except.ok.inj hx
    exact hrun

/-- A connection has closed, and its `connectionDestroyed` is pending. -/
theorem closed (h : c.Inv) {conn : ClientConnection} {callback : ClientCloseCallback}
    (hopened : c.opened = [(conn, callback)]) :
    Inv (({ c with opened := [], connection := none }).queueInLoop
      (.connectionDestroyed conn)) where
  sockets := h.sockets
  made := h.made
  accounted := by
    have haccounted := h.accounted
    rw [hopened] at haccounted
    rw [← haccounted]
    simp [queueInLoop, queued]
  sessions := Nat.le_trans (Nat.add_le_add_left (Nat.zero_le _) _) h.sessions
  current _ := rfl
  pending halive conn' := by
    have hpending := h.pending halive conn'
    simp [queueInLoop, hpending]
  gone := h.gone
  replaced := by
    intro _ p hp
    cases hp

theorem handleClose (h : c.Inv) {i : ℕ} {savedErrno : ConnectErrno}
    (he : c.connector.batch.inUserCode) (hx : c.handleClose i savedErrno = .ok d) : Goes c d := by
  unfold TcpClient.handleClose at hx
  split at hx
  · obtain rfl := Except.ok.inj hx
    exact ⟨h, [], .nil⟩
  · next conn callback hi =>
    obtain ⟨hopened, hlength, -⟩ := h.of_mem_opened (List.mem_of_getElem? hi)
    have hempty : c.opened.eraseIdx i = [] := by
      obtain ⟨hlt, -⟩ := List.getElem?_eq_some_iff.mp hi
      rw [hopened] at hlt ⊢
      obtain rfl := Nat.lt_one_iff.mp hlt
      rfl
    have hclosed := h.closed hopened
    rw [hempty] at hx
    cases callback with
    | removeConnection =>
      obtain ⟨halive, hx⟩ := check_bind_eq_ok_iff.mp hx
      obtain ⟨hconnection, hx⟩ := check_bind_eq_ok_iff.mp hx
      simp only at hx
      split_ifs at hx
      · obtain ⟨u, hu, rfl⟩ := withConnector_eq_ok_iff.mp hx
        obtain ⟨hdelivered, hrestarts⟩ := restart_cases hu
        have hrun : connectorMachine.Run c.connector [.restart savedErrno] u :=
          .snoc .nil ⟨he, by omega⟩ hu
        refine ⟨⟨h.sockets.of_run hrun, hclosed.made.trans hdelivered.symm, hclosed.accounted, ?_,
          hclosed.current, hclosed.pending, fun hdead => ?_, nofun⟩, _, hrun⟩
        · simp only [hdelivered, hrestarts]
          exact Nat.le_of_eq hlength.symm
        · cases halive.symm.trans hdead
      · obtain rfl := Except.ok.inj hx
        exact ⟨hclosed, [], .nil⟩
    | detail =>
      obtain rfl := Except.ok.inj hx
      refine ⟨⟨hclosed.sockets, hclosed.made, hclosed.accounted, hclosed.sessions, fun halive => ?_,
        hclosed.pending, hclosed.gone, nofun⟩, [], .nil⟩
      -- the destructor alone replaces the callback
      have hmem : (conn, ClientCloseCallback.detail) ∈
          c.connection.toList.map (·, ClientCloseCallback.removeConnection) := by
        rw [← h.current halive, hopened]
        exact List.mem_singleton_self _
      obtain ⟨_, -, heq⟩ := List.mem_map.mp hmem
      cases heq

/-- What may change in a client that is destroyed. -/
theorem of_dead (h : c.Inv) {alive : Bool} (hdead : alive = false)
    {opened : List (ClientConnection × ClientCloseCallback)} {functors : List ClientFunctor}
    (hopened : opened.map Prod.fst = c.opened.map Prod.fst)
    (hfunctors : queued functors = queued c.functors)
    (hgone : c.connector.state = .kConnected ∨ c.connector.connect_ = false)
    (hreplaced : ∀ p ∈ opened, p.2 = .detail ∨ .setCloseCallback p.1 ∈ functors) :
    Inv { c with alive := alive, opened := opened, functors := functors } where
  sockets := h.sockets
  made := h.made
  accounted := by
    rw [hopened, hfunctors]
    exact h.accounted
  sessions := by
    have hlength := congrArg List.length hopened
    rw [List.length_map, List.length_map] at hlength
    rw [hlength]
    exact h.sessions
  current halive := by cases hdead.symm.trans halive
  pending halive := by cases hdead.symm.trans halive
  gone _ := hgone
  replaced _ := hreplaced

theorem runFunctor (h : c.Inv) {f : ClientFunctor} {functors : List ClientFunctor}
    (hfunctors : c.functors = f :: functors) :
    Inv (TcpClient.runFunctor { c with functors := functors } f) := by
  have hpending := h.pending
  have hreplaced := h.replaced
  rw [hfunctors] at hpending hreplaced
  cases f with
  | connectionDestroyed conn =>
    refine ⟨h.sockets, h.made, ?_, h.sessions, h.current, fun halive conn' hmem => ?_, h.gone,
      fun hdead p hp => ?_⟩
    · rw [← h.accounted, hfunctors]
      simp [TcpClient.runFunctor, queued]
    · exact hpending halive conn' (List.mem_cons_of_mem _ hmem)
    · rcases hreplaced hdead p hp with hdetail | hmem
      · exact .inl hdetail
      · refine .inr ((List.mem_cons.mp hmem).resolve_left fun heq => ?_)
        cases heq
  | setCloseCallback conn =>
    have hdead : c.alive = false :=
      eq_false_of_ne_true fun halive => hpending halive conn List.mem_cons_self
    refine h.of_dead hdead (map_fst_setCloseCallback _ conn) (by rw [hfunctors]; rfl)
      (h.gone hdead) fun p hp => ?_
    rcases of_mem_setCloseCallback hp with hdetail | ⟨hmem, hne⟩
    · exact .inl hdetail
    · rcases hreplaced hdead p hmem with hdetail | hmem
      · exact .inl hdetail
      · refine .inr ((List.mem_cons.mp hmem).resolve_left fun heq => ?_)
        exact hne (ClientFunctor.setCloseCallback.inj heq)

theorem destroy (h : c.Inv) (halive : c.alive = true) {inLoop : Bool}
    (he : inLoop = true → c.connector.batch.inUserCode) (hx : c.destroy inLoop = .ok d) :
    Goes c d := by
  have hcurrent := h.current halive
  unfold TcpClient.destroy at hx
  simp only at hx
  split at hx
  · next conn hconnection =>
    rw [hconnection] at hcurrent
    have hmem : (conn, ClientCloseCallback.removeConnection) ∈ c.opened := by
      rw [hcurrent]
      exact List.mem_singleton_self _
    have hstate := (h.of_mem_opened hmem).2.2
    have hconn : ∀ p ∈ c.opened, p.1 = conn := by
      intro p hp
      rw [hcurrent] at hp
      rw [List.mem_singleton.mp hp]
    split_ifs at hx
    · obtain rfl := Except.ok.inj hx
      refine ⟨h.of_dead rfl (map_fst_setCloseCallback _ conn) rfl (.inl hstate) fun p hp => ?_, [],
        .nil⟩
      rcases of_mem_setCloseCallback hp with hdetail | ⟨hp, hne⟩
      · exact .inl hdetail
      · exact absurd (hconn p hp) hne
    · obtain rfl := Except.ok.inj hx
      refine ⟨h.of_dead rfl rfl ?_ (.inl hstate) fun p hp => ?_, [], .nil⟩
      · simp [queued]
      · rw [hconn p hp]
        exact .inr (List.mem_append_right _ (List.mem_singleton_self _))
  · next hconnection =>
    rw [hconnection] at hcurrent
    obtain ⟨u, hu, rfl⟩ := withConnector_eq_ok_iff.mp hx
    obtain ⟨hinv, hrun⟩ := h.stop he hu
    refine ⟨hinv.of_dead rfl rfl rfl (.inr (stop_calm hu).connect_) fun p hp => ?_, hrun⟩
    rw [hcurrent] at hp
    cases hp

theorem step {l : ClientStep} (h : c.Inv) (he : tcpClient.enabled c l)
    (hx : tcpClient.exec c l = .ok d) : Goes c d := by
  cases l with
  | connect inLoop savedErrno => exact h.connect he.1 he.2 hx
  | disconnect | enableRetry =>
    obtain rfl := Except.ok.inj hx
    exact ⟨{ h with }, [], .nil⟩
  | stop inLoop =>
    obtain ⟨u, hu, rfl⟩ := withConnector_eq_ok_iff.mp hx
    obtain ⟨hinv, hrun⟩ := h.stop he.2 hu
    exact ⟨{ hinv with }, hrun⟩
  | loop l peerAddr => exact h.loopStep he.1 he.2 hx
  | handleClose i savedErrno => exact h.handleClose he.1 hx
  | runFunctor =>
    simp only [tcpClient] at hx
    split at hx
    · obtain rfl := Except.ok.inj hx
      exact ⟨h, [], .nil⟩
    · next f functors hfunctors =>
      obtain rfl := Except.ok.inj hx
      refine ⟨h.runFunctor hfunctors, [], ?_⟩
      cases f <;> exact .nil
  | destroy inLoop => exact h.destroy he.1 he.2 hx

end Inv

/-! ## How a step fails -/

variable {a : ClientFault}

theorem withConnector_error {w : Except ConnectorFault ConnectorWorld}
    (h : c.withConnector w = .error a) : ∃ e, a = .connector e := by
  cases w with
  | error e => exact ⟨e, (Except.error.inj h).symm⟩
  | ok u => cases h

/-- A socket is delivered to a client that is alive. -/
theorem Inv.loopStep_error (h : c.Inv) {l : ConnectorStep} {peerAddr : InetAddress}
    (hl : l.ofLoop = true) (hx : c.loopStep l peerAddr = .error a) : ∃ e, a = .connector e := by
  rcases bind_eq_error_iff.mp hx with hx | ⟨u, hu, hx⟩
  · cases hexec : connectorMachine.exec c.connector l with
    | error e =>
      rw [hexec] at hx
      exact ⟨e, (Except.error.inj hx).symm⟩
    | ok u =>
      rw [hexec] at hx
      cases hx
  · simp only at hx
    split at hx
    · cases hx
    · next sockfd _ hdrop =>
      rcases check_bind_eq_error_iff.mp hx with ⟨hdead, -⟩ | ⟨-, hx⟩
      · rcases ofLoop_cases hl (mapError_eq_ok_iff.mp hu) with hcalm | ⟨hstate, hconnect, -⟩
        · rw [hcalm.delivered, List.drop_length] at hdrop
          cases hdrop
        · rcases h.gone (eq_false_of_ne_true hdead) with hgone | hgone
          · cases hstate.symm.trans hgone
          · cases hconnect.symm.trans hgone
      · cases hx

/-- The connection that closes is the one in `connection_`. -/
theorem Inv.handleClose_error (h : c.Inv) {i : ℕ} {savedErrno : ConnectErrno}
    (hx : c.handleClose i savedErrno = .error a) :
    (∃ e, a = .connector e) ∨ (a = .freed ∧ ∃ conn, .setCloseCallback conn ∈ c.functors) := by
  unfold TcpClient.handleClose at hx
  split at hx
  · cases hx
  · next conn callback hi =>
    have hmem := List.mem_of_getElem? hi
    cases callback with
    | removeConnection =>
      rcases check_bind_eq_error_iff.mp hx with ⟨hdead, rfl⟩ | ⟨halive, hx⟩
      · rcases h.replaced (eq_false_of_ne_true hdead) _ hmem with hdetail | hpending
        · cases hdetail
        · exact .inr ⟨rfl, conn, hpending⟩
      · rcases check_bind_eq_error_iff.mp hx with ⟨hother, -⟩ | ⟨-, hx⟩
        · rw [h.current halive] at hmem
          obtain ⟨conn', hconn', heq⟩ := List.mem_map.mp hmem
          obtain ⟨rfl, -⟩ := Prod.mk.inj heq
          exact absurd (Option.mem_toList.mp hconn') hother
        · simp only at hx
          split_ifs at hx
          · exact .inl (withConnector_error hx)
          · cases hx
    | detail => cases hx

theorem Inv.exec_error (h : c.Inv) {l : ClientStep} (he : tcpClient.enabled c l)
    (hx : tcpClient.exec c l = .error a) :
    (∃ e, a = .connector e) ∨ (a = .freed ∧ ∃ conn, .setCloseCallback conn ∈ c.functors) := by
  cases l with
  | connect | stop => exact .inl (withConnector_error hx)
  | disconnect | enableRetry => cases hx
  | loop l peerAddr => exact .inl (h.loopStep_error he.1 hx)
  | handleClose i savedErrno => exact h.handleClose_error hx
  | runFunctor =>
    simp only [tcpClient] at hx
    split at hx <;> cases hx
  | destroy inLoop =>
    simp only [tcpClient, TcpClient.destroy] at hx
    split at hx
    · split_ifs at hx
    · exact .inl (withConnector_error hx)

theorem inv_of_run {nameArg : Bytes} {ls : List ClientStep}
    (hrun : tcpClient.Run (.new nameArg) ls c) :
    c.Inv ∧ ∃ ls', connectorMachine.Run .new ls' c.connector := by
  induction hrun with
  | nil => exact ⟨.new nameArg, [], .nil⟩
  | snoc _ he hx ih =>
    obtain ⟨hinv, ls', hls'⟩ := ih
    obtain ⟨hinv', ls'', hls''⟩ := hinv.step he hx
    exact ⟨hinv', ls' ++ ls'', hls'.trans hls''⟩

end TcpClient

/-- Steps of the loop, with a server at `127.0.0.1:8080`. -/
def loopSteps (ls : List ConnectorStep) : List ClientStep :=
  ls.map (.loop · (.in4 ![127, 0, 0, 1] 8080))

/-- A client that gets a connection, loses it, and gets another one. -/
def reconnects : List ClientStep :=
  [.connect true .EINPROGRESS, .enableRetry] ++
    loopSteps [.poll [some 0], .handle false true, .runTask false false, .endBatch,
      .runFunctor .other, .poll [none], .handle false false] ++
    [.handleClose 0 .EINPROGRESS] ++
    loopSteps [.endBatch, .poll [some 1], .handle false true, .runTask false false, .endBatch] ++
    [.runFunctor]

/-! ## After `disconnect` and `stop` -/

namespace TcpClient

open ConnectorWorld

variable {c d : TcpClient}

/-- The connector will not deliver another socket by itself. -/
def Quiet (c : TcpClient) : Prop :=
  c.connector.connect_ = false ∨ c.connector.state = .kConnected

/-- From `c` to `d` the client wants no connection. -/
structure Declines (c d : TcpClient) : Prop where
  connect_ : d.connect_ = false
  restarts : d.connector.restarts = c.connector.restarts
  quiet : c.Quiet → d.established = c.established ∧ d.Quiet

theorem Declines.trans {e : TcpClient} (h : Declines c d) (h' : Declines d e) : Declines c e where
  connect_ := h'.connect_
  restarts := h'.restarts.trans h.restarts
  quiet hc := by
    obtain ⟨hd, hquiet⟩ := h.quiet hc
    obtain ⟨he, hquiet'⟩ := h'.quiet hquiet
    exact ⟨he.trans hd, hquiet'⟩

theorem declines_of_connector (hconnect : d.connect_ = false)
    (hconnector : d.connector = c.connector) (hestablished : d.established = c.established) :
    Declines c d where
  connect_ := hconnect
  restarts := by rw [hconnector]
  quiet hc := by
    refine ⟨hestablished, ?_⟩
    rw [Quiet, hconnector]
    exact hc

theorem declines_stop {inLoop : Bool} {u : ConnectorWorld} (hu : c.connector.stop inLoop = .ok u)
    (hconnect : d.connect_ = false) (hconnector : d.connector = u)
    (hestablished : d.established = c.established) : Declines c d where
  connect_ := hconnect
  restarts := by
    rw [hconnector]
    exact (stop_calm hu).restarts
  quiet _ := by
    refine ⟨hestablished, .inl ?_⟩
    rw [hconnector]
    exact (stop_calm hu).connect_

theorem step_declines {l : ClientStep} (hconnect : c.connect_ = false)
    (he : tcpClient.enabled c l) (hx : tcpClient.exec c l = .ok d)
    (hl : ∀ inLoop savedErrno, l ≠ .connect inLoop savedErrno) : Declines c d := by
  cases l with
  | connect inLoop savedErrno => exact absurd rfl (hl inLoop savedErrno)
  | disconnect =>
    obtain rfl := Except.ok.inj hx
    exact declines_of_connector rfl rfl rfl
  | enableRetry =>
    obtain rfl := Except.ok.inj hx
    exact declines_of_connector hconnect rfl rfl
  | stop inLoop =>
    obtain ⟨u, hu, rfl⟩ := withConnector_eq_ok_iff.mp hx
    exact declines_stop hu rfl rfl rfl
  | loop l peerAddr =>
    obtain ⟨u, hu, hx⟩ := bind_eq_ok_iff.mp hx
    simp only at hx
    rcases ofLoop_cases he.1 (mapError_eq_ok_iff.mp hu) with hcalm |
      ⟨hstate, hwanted, hrestarts, hconnect', sockfd, hdelivered⟩
    · have hnone : u.delivered.drop c.connector.delivered.length = [] := by
        rw [hcalm.delivered, List.drop_length]
      simp only [hnone] at hx
      obtain rfl := Except.ok.inj hx
      refine ⟨hconnect, hcalm.restarts, fun hquiet => ⟨rfl, ?_⟩⟩
      rcases hquiet with hquiet | hquiet
      · exact .inl (hcalm.connect_.trans hquiet)
      · exact .inr (hcalm.connected hquiet)
    · have hone : u.delivered.drop c.connector.delivered.length = [sockfd] := by
        rw [hdelivered, List.drop_left]
      simp only [hone] at hx
      obtain ⟨-, hx⟩ := check_bind_eq_ok_iff.mp hx
      obtain rfl := Except.ok.inj hx
      refine ⟨hconnect, hrestarts, fun hquiet => ?_⟩
      rcases hquiet with hquiet | hquiet
      · cases hwanted.symm.trans hquiet
      · cases hstate.symm.trans hquiet
  | handleClose i savedErrno =>
    simp only [tcpClient, handleClose] at hx
    split at hx
    · obtain rfl := Except.ok.inj hx
      exact declines_of_connector hconnect rfl rfl
    · next conn callback _ =>
      cases callback with
      | removeConnection =>
        obtain ⟨-, hx⟩ := check_bind_eq_ok_iff.mp hx
        obtain ⟨-, hx⟩ := check_bind_eq_ok_iff.mp hx
        simp only [queueInLoop, hconnect, Bool.and_false, Bool.false_eq_true, if_false] at hx
        obtain rfl := Except.ok.inj hx
        exact declines_of_connector rfl rfl rfl
      | detail =>
        obtain rfl := Except.ok.inj hx
        exact declines_of_connector hconnect rfl rfl
  | runFunctor =>
    simp only [tcpClient] at hx
    split at hx
    · obtain rfl := Except.ok.inj hx
      exact declines_of_connector hconnect rfl rfl
    · next f functors _ =>
      obtain rfl := Except.ok.inj hx
      cases f <;> exact declines_of_connector hconnect rfl rfl
  | destroy inLoop =>
    simp only [tcpClient, destroy] at hx
    split at hx
    · split_ifs at hx
      · obtain rfl := Except.ok.inj hx
        exact declines_of_connector hconnect rfl rfl
      · obtain rfl := Except.ok.inj hx
        exact declines_of_connector hconnect rfl rfl
    · obtain ⟨u, hu, rfl⟩ := withConnector_eq_ok_iff.mp hx
      exact declines_stop hu hconnect rfl rfl

theorem run_declines {ls : List ClientStep} (hconnect : c.connect_ = false)
    (hrun : tcpClient.Run c ls d)
    (hls : ∀ inLoop savedErrno, .connect inLoop savedErrno ∉ ls) : Declines c d := by
  induction hrun with
  | nil => exact declines_of_connector hconnect rfl rfl
  | @snoc ls t u l _ he hx ih =>
    have ht := ih fun inLoop savedErrno hmem =>
      hls inLoop savedErrno (List.mem_append_left _ hmem)
    refine ht.trans (step_declines ht.connect_ he hx fun inLoop savedErrno heq => ?_)
    refine hls inLoop savedErrno (List.mem_append_right _ ?_)
    rw [heq]
    exact List.mem_singleton_self _

theorem Inv.length_established (h : c.Inv) :
    c.connector.restarts ≤ c.established.length ∧
      c.established.length ≤ c.connector.restarts + 1 := by
  have hlength := congrArg List.length h.made
  rw [List.length_map] at hlength
  rw [hlength]
  rcases h.sockets.sessions with heq | ⟨heq, -⟩ <;> omega

end TcpClient

open TcpClient in
/-- From any state in which the client does not want to be connected, as after `disconnect` and
`stop`, and as long as `connect` is not called : the connector is not restarted, at most one more
connection is made, and none if the attempts were stopped or a connection had been made. -/
theorem client_disconnected {nameArg : Bytes} {ls ls' : List ClientStep} {s t : TcpClient}
    (hs : tcpClient.Run (.new nameArg) ls s) (hconnect : s.connect_ = false)
    (ht : tcpClient.Run s ls' t) (hls : ∀ inLoop savedErrno, .connect inLoop savedErrno ∉ ls') :
    t.connector.restarts = s.connector.restarts ∧
    t.established.length ≤ s.established.length + 1 ∧
    (s.connector.connect_ = false ∨ s.connector.state = .kConnected →
      t.established = s.established) := by
  obtain ⟨hinv, -⟩ := inv_of_run hs
  obtain ⟨hinv', -⟩ := inv_of_run (hs.trans ht)
  have hdeclines := run_declines hconnect ht hls
  refine ⟨hdeclines.restarts, ?_, fun hquiet => (hdeclines.quiet hquiet).1⟩
  have hle := hinv.length_established
  have hle' := hinv'.length_established
  rw [hdeclines.restarts] at hle'
  omega

set_option maxRecDepth 20000 in
/-- `disconnect` with a connection : it closes, and the client does not try again. -/
theorem client_disconnected_close : ∃ s t,
    tcpClient.Run (.new (ascii "c")) (reconnects ++ [.disconnect]) s ∧
    tcpClient.Run s [.handleClose 0 .EINPROGRESS, .runFunctor] t ∧
    t.established = s.established ∧ t.connector.obtained = 2 := by
  obtain ⟨s, hs, hconnect, hstate, t, ht, hobtained⟩ : ∃ s,
      tcpClient.Run (.new (ascii "c")) (reconnects ++ [.disconnect]) s ∧ s.connect_ = false ∧
      s.connector.state = .kConnected ∧ ∃ t,
        tcpClient.Run s [.handleClose 0 .EINPROGRESS, .runFunctor] t ∧ t.connector.obtained = 2 :=
    ⟨_, .of_play rfl, rfl, rfl, _, .of_play rfl, rfl⟩
  obtain ⟨-, -, hnone⟩ := client_disconnected hs hconnect ht (by simp)
  exact ⟨s, t, hs, ht, hnone (.inr hstate), hobtained⟩

end Tmuduo
