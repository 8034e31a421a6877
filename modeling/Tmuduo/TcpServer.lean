import Tmuduo.InetAddress
import Tmuduo.Lookup
import Tmuduo.Machine

/-!
# The connections of a server

`TcpServer` is the part of `tmuduo::net::TcpServer` that names connections and keeps them in
`connections_`. The name of a connection ends with `":%s#%d"` of the listening address and a
number, cut to the 31 bytes that a buffer of 32 holds. So the number is cut when the address is
long or the number is large.

The names are distinct if and only if no number is cut, and then the map holds exactly the
connections that were accepted and not removed (`one_entry_each_iff`). `connections_collide` is
a server that listens on an IPv6 address and mixes up its first two connections.
-/

set_option autoImplicit false

namespace Tmuduo

/-- A connection of the server : which accept made it, and its name. -/
structure NamedConnection where
  id : ℕ
  name : Bytes
  deriving DecidableEq, Repr

/-- `tmuduo::net::TcpServer`. `accepted` are the connections that were made so far, and `live`
those that were not removed. -/
structure TcpServer where
  hostport : Bytes
  name : Bytes
  nextConnId : BitVec 32
  connections : Finmap fun _ : Bytes => NamedConnection
  accepted : List NamedConnection
  live : List NamedConnection

/-- The calls of the server's loop. -/
inductive ServerCall
  | newConnection
  | removeConnectionInLoop (conn : NamedConnection)
  deriving DecidableEq, Repr

namespace TcpServer

/-- `TcpServer::TcpServer`. -/
def new (listenAddr : InetAddress) (nameArg : Bytes) : TcpServer where
  hostport := listenAddr.toIpPort
  name := nameArg
  nextConnId := 1
  connections := ∅
  accepted := []
  live := []

/-- The name of the connection with the number `id`. -/
def connName (hostport name : Bytes) (id : ℤ) : Bytes :=
  name ++ snprintf 32 (ascii ":" ++ hostport ++ ascii "#" ++ signedDecimal id)

variable (s : TcpServer)

/-- The connection that the next accept makes. -/
def nextConnection : NamedConnection :=
  ⟨s.accepted.length, connName s.hostport s.name s.nextConnId.toInt⟩

def newConnection : TcpServer :=
  let conn := s.nextConnection
  { s with
    nextConnId := s.nextConnId + 1
    connections := s.connections.insert conn.name conn
    accepted := s.accepted ++ [conn]
    live := s.live ++ [conn] }

/-- `removeConnectionInLoop`, with the assertion that one entry was erased. -/
def removeConnectionInLoop (conn : NamedConnection) : Except Unit TcpServer := do
  let n := if conn.name ∈ s.connections then 1 else 0
  check (n = 1) ()
  return { s with connections := s.connections.erase conn.name, live := s.live.erase conn }

end TcpServer

/-- A server that accepts fewer than 2^31 connections, and removes each of them at most once. -/
def tcpServer : Machine TcpServer ServerCall Unit where
  enabled s
    | .newConnection => s.accepted.length + 1 < 2 ^ 31
    | .removeConnectionInLoop conn => conn ∈ s.live
  exec s
    | .newConnection => .ok s.newConnection
    | .removeConnectionInLoop conn => s.removeConnectionInLoop conn

instance (s : TcpServer) : ∀ l, Decidable (tcpServer.enabled s l)
  | .newConnection => inferInstanceAs (Decidable (s.accepted.length + 1 < 2 ^ 31))
  | .removeConnectionInLoop conn => inferInstanceAs (Decidable (conn ∈ s.live))

/-! ## What the server keeps -/

namespace TcpServer

variable {s : TcpServer} {hostport name : Bytes}

/-- The names of two connections are the same if and only if the digits that are not cut are. -/
theorem connName_eq_iff (hostport name : Bytes) (i j : ℕ) :
    connName hostport name i = connName hostport name j ↔
      (decimal i).take (29 - hostport.length) = (decimal j).take (29 - hostport.length) := by
  have hsigned : ∀ k : ℕ, signedDecimal k = decimal k := fun k => by simp [signedDecimal]
  have hroom : 31 - (ascii ":" ++ hostport ++ ascii "#").length = 29 - hostport.length := by
    simp only [List.length_append]
    have hcolon : (ascii ":").length = 1 := by decide
    have hhash : (ascii "#").length = 1 := by decide
    omega
  simp only [connName, snprintf, hsigned, List.append_cancel_left_eq, Nat.reduceSub]
  generalize ascii ":" ++ hostport ++ ascii "#" = stem at hroom
  rw [List.take_append, List.take_append, List.append_cancel_left_eq, hroom]

/-- The connections that were accepted have distinct names. -/
def Distinct (s : TcpServer) : Prop := s.accepted.Pairwise fun c d => c.name ≠ d.name

/-- The map holds the live connections under their names, and nothing else. -/
def Exact (s : TcpServer) : Prop :=
  ∀ n conn, s.connections.lookup n = some conn ↔ conn ∈ s.live ∧ conn.name = n

/-- Every live connection has an entry of its own, which its removal erases. -/
structure OneEntryEach (s : TcpServer) : Prop where
  distinct : s.Distinct
  exact : s.Exact
  erases : ∀ conn ∈ s.live, ∃ u, tcpServer.exec s (.removeConnectionInLoop conn) = .ok u

/-- What every call keeps. -/
structure Inv (hostport name : Bytes) (s : TcpServer) : Prop where
  hostport_eq : s.hostport = hostport
  name_eq : s.name = name
  nextConnId_eq : s.nextConnId = BitVec.ofNat 32 (s.accepted.length + 1)
  accepted_eq : ∀ (i : ℕ) (conn : NamedConnection), s.accepted[i]? = some conn →
    conn = ⟨i, connName hostport name (i + 1 : ℕ)⟩
  live_accepted : ∀ conn ∈ s.live, conn ∈ s.accepted
  live_nodup : s.live.Nodup
  exact : s.Distinct → s.Exact

theorem Inv.new (listenAddr : InetAddress) (nameArg : Bytes) :
    Inv listenAddr.toIpPort nameArg (.new listenAddr nameArg) where
  hostport_eq := rfl
  name_eq := rfl
  nextConnId_eq := rfl
  accepted_eq _ _ h := by simp [TcpServer.new] at h
  live_accepted _ h := by simp [TcpServer.new] at h
  live_nodup := List.nodup_nil
  exact _ n conn := by simp [TcpServer.new]

/-- The names are distinct if and only if no number is cut. -/
theorem Inv.distinct_iff (h : Inv hostport name s) :
    s.Distinct ↔ s.accepted.length ≤ 1 ∨ s.accepted.length < 10 ^ (29 - hostport.length) := by
  have hname : ∀ i (hi : i < s.accepted.length),
      s.accepted[i].name = connName hostport name (i + 1 : ℕ) := by
    intro i hi
    rw [h.accepted_eq i _ (List.getElem?_eq_getElem hi)]
  rw [← take_decimal_ne_iff, Distinct, List.pairwise_iff_getElem]
  constructor
  · intro hne i j hi hij hj heq
    refine hne (i - 1) (j - 1) (by omega) (by omega) (by omega) ?_
    rw [hname, hname, connName_eq_iff, Nat.sub_add_cancel hi, Nat.sub_add_cancel (by omega)]
    exact heq
  · intro hne i j hi hj hij heq
    rw [hname, hname, connName_eq_iff] at heq
    exact hne (i + 1) (j + 1) (by omega) (by omega) (by omega) heq

theorem Inv.nextConnection_eq (h : Inv hostport name s)
    (hlt : s.accepted.length + 1 < 2 ^ 31) : s.nextConnection =
      ⟨s.accepted.length, connName hostport name (s.accepted.length + 1 : ℕ)⟩ := by
  have htoNat : s.nextConnId.toNat = s.accepted.length + 1 := by
    rw [h.nextConnId_eq, BitVec.toNat_ofNat]
    exact Nat.mod_eq_of_lt (by omega)
  rw [nextConnection, BitVec.toInt_eq_toNat_of_lt (by omega), htoNat, h.hostport_eq, h.name_eq]

theorem Inv.nextConnection_not_mem (h : Inv hostport name s) :
    s.nextConnection ∉ s.accepted := by
  intro hmem
  obtain ⟨i, hi, heq⟩ := List.getElem_of_mem hmem
  have hid := congrArg NamedConnection.id (h.accepted_eq i _ (List.getElem?_eq_getElem hi))
  rw [heq] at hid
  exact absurd hid (by simp only [nextConnection]; omega)

theorem Inv.newConnection (h : Inv hostport name s) (hlt : s.accepted.length + 1 < 2 ^ 31) :
    Inv hostport name s.newConnection where
  hostport_eq := h.hostport_eq
  name_eq := h.name_eq
  nextConnId_eq := by
    simp only [TcpServer.newConnection, List.length_append, List.length_singleton]
    rw [h.nextConnId_eq]
    exact (BitVec.ofNat_add _ 1).symm
  accepted_eq i conn hi := by
    rcases lt_trichotomy i s.accepted.length with hlt' | rfl | hgt
    · rw [TcpServer.newConnection, List.getElem?_append_left hlt'] at hi
      exact h.accepted_eq i conn hi
    · rw [TcpServer.newConnection, List.getElem?_concat_length] at hi
      rw [← Option.some.inj hi, h.nextConnection_eq hlt]
    · rw [TcpServer.newConnection, List.getElem?_eq_none
        (by rw [List.length_append, List.length_singleton]; omega)] at hi
      cases hi
  live_accepted conn hconn := by
    rcases List.mem_append.mp hconn with hlive | hlast
    · exact List.mem_append_left _ (h.live_accepted conn hlive)
    · exact List.mem_append_right _ hlast
  live_nodup := by
    refine List.nodup_append.mpr ⟨h.live_nodup, List.nodup_singleton _, fun a ha b hb => ?_⟩
    rintro rfl
    rw [List.mem_singleton.mp hb] at ha
    exact h.nextConnection_not_mem (h.live_accepted _ ha)
  exact hdistinct n conn := by
    obtain ⟨hold, -, hother⟩ := List.pairwise_append.mp hdistinct
    have hexact := h.exact hold n conn
    have hne : ∀ c ∈ s.live, c.name ≠ s.nextConnection.name := fun c hc =>
      hother c (h.live_accepted c hc) _ List.mem_cons_self
    simp only [TcpServer.newConnection, lookup_insert_eq, List.mem_append, List.mem_singleton]
    split_ifs with hn
    · subst hn
      constructor
      · rintro heq
        exact ⟨.inr (Option.some.inj heq).symm, by rw [Option.some.inj heq]⟩
      · rintro ⟨hlive | rfl, hname⟩
        · exact absurd hname (hne conn hlive)
        · rfl
    · rw [hexact]
      constructor
      · rintro ⟨hlive, hname⟩
        exact ⟨.inl hlive, hname⟩
      · rintro ⟨hlive | rfl, hname⟩
        · exact ⟨hlive, hname⟩
        · exact absurd hname.symm hn

/-- In a server with distinct names, two live connections with one name are the same. -/
theorem Inv.eq_of_name (h : Inv hostport name s) (hdistinct : s.Distinct)
    {c d : NamedConnection} (hc : c ∈ s.live) (hd : d ∈ s.live) (hname : c.name = d.name) :
    c = d := by
  obtain ⟨i, hi, rfl⟩ := List.getElem_of_mem (h.live_accepted c hc)
  obtain ⟨j, hj, rfl⟩ := List.getElem_of_mem (h.live_accepted d hd)
  have hne := List.pairwise_iff_getElem.mp hdistinct
  rcases lt_trichotomy i j with hlt | rfl | hgt
  · exact absurd hname (hne i j hi hj hlt)
  · rfl
  · exact absurd hname.symm (hne j i hj hi hgt)

theorem removeConnectionInLoop_eq_ok_iff {conn : NamedConnection} {u : TcpServer} :
    s.removeConnectionInLoop conn = .ok u ↔ conn.name ∈ s.connections ∧
      u = { s with connections := s.connections.erase conn.name, live := s.live.erase conn } := by
  unfold TcpServer.removeConnectionInLoop
  by_cases hin : conn.name ∈ s.connections
  · simp [hin, eq_comm]
  · simp [hin, check]
    rintro ⟨⟩

theorem Inv.removeConnectionInLoop (h : Inv hostport name s) {conn : NamedConnection}
    (hconn : conn ∈ s.live) {u : TcpServer} (hx : s.removeConnectionInLoop conn = .ok u) :
    Inv hostport name u := by
  obtain ⟨-, rfl⟩ := removeConnectionInLoop_eq_ok_iff.mp hx
  refine ⟨h.hostport_eq, h.name_eq, h.nextConnId_eq, h.accepted_eq,
    fun c hc => h.live_accepted c (List.mem_of_mem_erase hc), h.live_nodup.erase conn,
    fun hdistinct n c => ?_⟩
  rw [lookup_erase_eq, List.Nodup.mem_erase_iff h.live_nodup]
  split_ifs with hn
  · subst hn
    constructor
    · rintro ⟨⟩
    · rintro ⟨⟨hne, hlive⟩, hname⟩
      exact absurd (h.eq_of_name hdistinct hlive hconn hname) hne
  · rw [h.exact hdistinct n c]
    constructor
    · rintro ⟨hlive, hname⟩
      refine ⟨⟨?_, hlive⟩, hname⟩
      rintro rfl
      exact hn hname.symm
    · rintro ⟨⟨-, hlive⟩, hname⟩
      exact ⟨hlive, hname⟩

theorem Inv.step {l : ServerCall} {u : TcpServer} (h : Inv hostport name s)
    (he : tcpServer.enabled s l) (hx : tcpServer.exec s l = .ok u) : Inv hostport name u := by
  cases l with
  | newConnection =>
    obtain rfl := Except.ok.inj hx
    exact h.newConnection he
  | removeConnectionInLoop conn => exact h.removeConnectionInLoop he hx

theorem Inv.oneEntryEach_iff (h : Inv hostport name s) : s.OneEntryEach ↔ s.Distinct := by
  refine ⟨fun hone => hone.distinct, fun hdistinct => ⟨hdistinct, h.exact hdistinct, ?_⟩⟩
  intro conn hconn
  have hin : conn.name ∈ s.connections :=
    mem_of_lookup ((h.exact hdistinct _ _).mpr ⟨hconn, rfl⟩)
  exact ⟨_, removeConnectionInLoop_eq_ok_iff.mpr ⟨hin, rfl⟩⟩

/-- One connection is accepted in each call of `newConnection`. -/
theorem accepted_length {listenAddr : InetAddress} {nameArg : Bytes} {ls : List ServerCall}
    {t : TcpServer} (hrun : tcpServer.Run (.new listenAddr nameArg) ls t) :
    t.accepted.length = ls.count .newConnection := by
  induction hrun with
  | nil => rfl
  | @snoc ls t u l _ _ hx ih =>
    rw [List.count_append, ← ih]
    cases l with
    | newConnection =>
      obtain rfl := Except.ok.inj hx
      simp [TcpServer.newConnection]
    | removeConnectionInLoop conn =>
      obtain ⟨-, rfl⟩ := removeConnectionInLoop_eq_ok_iff.mp hx
      simp

end TcpServer

/-- A server that listens on `listenAddr` gives its connections distinct names, keeps exactly
the live ones in its map, overwrites none of them and erases one entry for each removal, all along
a run, if and only if it accepts at most one connection or none of its numbers has more digits
than the 32 bytes leave room for. -/
theorem one_entry_each_iff (listenAddr : InetAddress) (nameArg : Bytes) {ls : List ServerCall}
    {t : TcpServer} (hrun : tcpServer.Run (.new listenAddr nameArg) ls t) :
    ((∀ pre post u, ls = pre ++ post → tcpServer.Run (.new listenAddr nameArg) pre u →
        u.OneEntryEach) ∧
      ∀ pre post u, ls = pre ++ .newConnection :: post →
        tcpServer.Run (.new listenAddr nameArg) pre u →
        u.nextConnection.name ∉ u.connections) ↔
      ls.count .newConnection ≤ 1 ∨
        ls.count .newConnection < 10 ^ (29 - listenAddr.toIpPort.length) := by
  have hinv : ∀ {pre u}, tcpServer.Run (.new listenAddr nameArg) pre u →
      u.Inv listenAddr.toIpPort nameArg := fun h =>
    h.invariant (.new listenAddr nameArg) fun _ _ _ hv he hx => hv.step he hx
  have hiff : ∀ {pre u}, tcpServer.Run (.new listenAddr nameArg) pre u →
      (u.Distinct ↔ pre.count .newConnection ≤ 1 ∨
        pre.count .newConnection < 10 ^ (29 - listenAddr.toIpPort.length)) := by
    intro pre u h
    rw [← TcpServer.accepted_length h]
    exact (hinv h).distinct_iff
  constructor
  · rintro ⟨hall, -⟩
    exact (hiff hrun).mp (hall ls [] t (List.append_nil ls).symm hrun).distinct
  · intro hfew
    have hone : ∀ pre post u, ls = pre ++ post →
        tcpServer.Run (.new listenAddr nameArg) pre u → u.OneEntryEach := by
      intro pre post u hls hu
      refine (hinv hu).oneEntryEach_iff.mpr ((hiff hu).mpr ?_)
      have hcount : pre.count .newConnection ≤ ls.count .newConnection := by
        rw [hls, List.count_append]
        exact Nat.le_add_right _ _
      omega
    refine ⟨hone, fun pre post u hls hu hmem => ?_⟩
    -- the state after this call has distinct names too
    have hls' : ls = pre ++ [.newConnection] ++ post := by simp [hls]
    rw [hls'] at hrun
    obtain ⟨v, hv, -⟩ := Machine.run_append_iff.mp hrun
    obtain ⟨u', hu', -, hx⟩ := Machine.run_snoc_iff.mp hv
    obtain rfl := hu.det hu'
    obtain rfl := Except.ok.inj hx
    obtain ⟨conn, hlookup⟩ := Finmap.mem_iff.mp hmem
    obtain ⟨hlive, hname⟩ := ((hone pre _ u hls hu).exact _ _).mp hlookup
    obtain ⟨-, -, hother⟩ := List.pairwise_append.mp (hone _ post _ hls' hv).distinct
    exact hother conn ((hinv hu).live_accepted conn hlive) _ List.mem_cons_self hname

/-- Two connections to `127.0.0.1:8080`, of which the first is removed. -/
theorem one_entry_each_loopback : ∃ t,
    tcpServer.Run (.new (.in4 ![127, 0, 0, 1] 8080) (ascii "echo"))
      [.newConnection, .newConnection,
        .removeConnectionInLoop ⟨0, ascii "echo:127.0.0.1:8080#1"⟩] t ∧
    t.live = [⟨1, ascii "echo:127.0.0.1:8080#2"⟩] ∧ t.OneEntryEach := by
  have hrun : tcpServer.Run (.new (.in4 ![127, 0, 0, 1] 8080) (ascii "echo"))
      [.newConnection, .newConnection,
        .removeConnectionInLoop ⟨0, ascii "echo:127.0.0.1:8080#1"⟩] _ := .of_play rfl
  have hroom : 2 < 10 ^ (29 - (InetAddress.in4 ![127, 0, 0, 1] 8080).toIpPort.length) := by decide
  obtain ⟨hall, -⟩ := (one_entry_each_iff _ _ hrun).mpr (.inr hroom)
  exact ⟨_, hrun, rfl, hall _ [] _ (List.append_nil _).symm hrun⟩

/-- Two connections to an IPv6 address of 43 bytes have the same name. The map has one entry for
both, and the second removal fails. -/
theorem connections_collide : ∃ t u,
    let addr := .in6 ![0x2001, 0xdb8, 0x1111, 0x2222, 0x3333, 0x4444, 0x5555, 0x6666] 8080
    let name := ascii ":2001:db8:1111:2222:3333:4444:5"
    tcpServer.Run (.new addr []) [.newConnection, .newConnection] t ∧
    t.accepted = [⟨0, name⟩, ⟨1, name⟩] ∧ t.live = t.accepted ∧
    t.connections.lookup name = some ⟨1, name⟩ ∧ ¬t.OneEntryEach ∧
    tcpServer.exec t (.removeConnectionInLoop ⟨0, name⟩) = .ok u ∧ u.live = [⟨1, name⟩] ∧
    tcpServer.exec u (.removeConnectionInLoop ⟨1, name⟩) = .error () := by
  have hrun : tcpServer.Run (.new (.in6 ![0x2001, 0xdb8, 0x1111, 0x2222, 0x3333, 0x4444, 0x5555,
      0x6666] 8080) []) [.newConnection, .newConnection] _ := .of_play rfl
  refine ⟨_, _, hrun, rfl, rfl, rfl, fun hone => ?_, rfl, rfl, rfl⟩
  exact List.pairwise_iff_getElem.mp hone.distinct 0 1 (by decide) (by decide) (by decide) rfl

end Tmuduo
