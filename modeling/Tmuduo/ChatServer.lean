import Tmuduo.LengthHeaderCodec
import Tmuduo.Machine
import Tmuduo.TcpOutput

/-!
# The chat server

`ChatServer` of `examples/chat/chat_server.cc` runs in one loop. Each message that the codec takes
off the input of a connection is sent, through the codec again, to all connections that are in
`connections_`. `log` are the messages of the server in the order of these broadcasts, with the
connection each came from.

The model of the server ends at the messages that a connection is given to send (`ChatConn.sent`).
What `sendInLoop` makes of them is in the `TcpRun` of the connection : they go out as they are if no
direct write is cut short at a place where this makes a difference (`TcpRun.WellWritten`).

`chat_total_order` is the statement for every run and every way the bytes arrive : what is sent to a
client is a segment of the one log, from where it joined to where it left, and what the log has of a
client is what it sent, in order.
-/

set_option autoImplicit false

namespace Tmuduo

open LengthHeaderCodec

/-- A connection of the server. `received` is all that has arrived, `sent` all that was given to
`sendInLoop`, as in `TcpRun`. `joined` is the length of the log when it joined, and `left` when it
was given nothing any more. -/
structure ChatConn where
  state : StateE
  listed : Bool
  input : ValidBuffer
  received : Bytes
  sent : Bytes
  joined : ℕ
  left : Option ℕ

/-- `ChatServer`, with all connections it ever had. -/
structure ChatServer where
  conns : List ChatConn
  log : List (ℕ × Bytes)

/-- An assertion of a buffer, a connection that is not there, or a loop that does not end. -/
inductive ChatFault
  | buffer (e : BufferAssert)
  | noConnection
  | endless
  deriving DecidableEq, Repr

namespace ChatConn

/-- `onConnection` of a new connection. -/
def new (joined : ℕ) : ChatConn := ⟨.kConnected, true, .new, [], [], joined, none⟩

variable (c : ChatConn)

/-- `codec_.send(conn.get(), message)`. In the loop thread `TcpConnection::send` gives the message
to `sendInLoop` if the state is `kConnected`, and does nothing otherwise. -/
def send (message : Bytes) : Except BufferAssert ChatConn := do
  let buf ← LengthHeaderCodec.send message
  return if c.state = .kConnected then { c with sent := c.sent ++ buf.content } else c

/-- One turn of the loop of `onStringMessage`. -/
def told (message : Bytes) : Except BufferAssert ChatConn :=
  if c.listed then c.send message else return c

/-- `TcpConnection::shutdown`, with `n` messages in the log. -/
def shutdown (n : ℕ) : ChatConn :=
  if c.state = .kConnected then { c with state := .kDisconnecting, left := some n } else c

/-- `handleClose`, and `onConnection` of a connection that is down. -/
def close (n : ℕ) : ChatConn :=
  { c with state := .kDisconnected, listed := false, left := some (c.left.getD n) }

end ChatConn

namespace ChatServer

def new : ChatServer := ⟨[], []⟩

variable (s : ChatServer)

def modify (i : ℕ) (f : ChatConn → ChatConn) : ChatServer := { s with conns := s.conns.modify i f }

/-- `ChatServer::onStringMessage`, of a message from the connection `i`. -/
def onStringMessage (i : ℕ) (message : Bytes) : Except ChatFault ChatServer := do
  let conns ← (s.conns.mapM (ChatConn.told · message)).mapError .buffer
  return { conns := conns, log := s.log ++ [(i, message)] }

/-- `LengthHeaderCodec::onMessage` on the connection `i`, with at most `fuel` rounds of its loop. -/
def onMessage (i : ℕ) : ℕ → ChatServer → Except ChatFault ChatServer
  | 0, _ => .error .endless
  | fuel + 1, s =>
    match s.conns[i]? with
    | none => .error .noConnection
    | some conn =>
      if kHeaderLen ≤ conn.input.readableBytes then
        let buf := conn.input.raw
        let be32 := ofObject 4 (slice buf.buffer buf.peek (buf.peek + 4))
        let len := (networkToHost be32).toInt
        if maxLength < len ∨ len < 0 then .ok (s.modify i (ChatConn.shutdown · s.log.length))
        else if len.toNat + kHeaderLen ≤ conn.input.readableBytes then do
          let input := conn.input.retrieve kHeaderLen
          let message := slice input.raw.buffer input.raw.peek (input.raw.peek + len.toNat)
          let s ← (s.modify i ({ · with input := input })).onStringMessage i message
          onMessage i fuel (s.modify i ({ · with input := input.retrieve len.toNat }))
        else .ok s
      else .ok s

/-- A chunk arrives on the connection `i`. -/
def receive (i : ℕ) (chunk : Bytes) : Except ChatFault ChatServer :=
  match s.conns[i]? with
  | none => .error .noConnection
  | some conn =>
    let s := s.modify i fun c =>
      { c with input := c.input.append chunk, received := c.received ++ chunk }
    s.onMessage i ((conn.input.append chunk).readableBytes + 1)

end ChatServer

/-- What happens to the server. -/
inductive ChatStep
  | connect
  | receive (i : ℕ) (chunk : Bytes)
  | close (i : ℕ)
  deriving DecidableEq, Repr

/-- The connection is in `connections_`. -/
def ChatServer.Listed (s : ChatServer) (i : ℕ) : Prop :=
  (s.conns[i]?).map ChatConn.listed = some true

instance (s : ChatServer) (i : ℕ) : Decidable (s.Listed i) :=
  inferInstanceAs (Decidable ((s.conns[i]?).map ChatConn.listed = some true))

/-- Clients connect and close, and their bytes arrive in any chunks. -/
def chatServer : Machine ChatServer ChatStep ChatFault where
  enabled s
    | .connect => True
    | .receive i _ => s.Listed i
    | .close i => s.Listed i
  exec s
    | .connect => .ok { s with conns := s.conns ++ [.new s.log.length] }
    | .receive i chunk => s.receive i chunk
    | .close i => .ok (s.modify i (ChatConn.close · s.log.length))

instance (s : ChatServer) : ∀ l, Decidable (chatServer.enabled s l)
  | .connect => isTrue trivial
  | .receive i _ => inferInstanceAs (Decidable (s.Listed i))
  | .close i => inferInstanceAs (Decidable (s.Listed i))

/-- The messages of the log that came from the connection `i`. -/
def messagesOf (i : ℕ) (log : List (ℕ × Bytes)) : List Bytes :=
  (log.filter (·.1 = i)).map Prod.snd

/-- The messages of the log between the joining and the leaving of a connection. -/
def ChatConn.segment (c : ChatConn) (log : List (ℕ × Bytes)) : List Bytes :=
  ((log.map Prod.snd).take (c.left.getD log.length)).drop c.joined

/-! ## One message -/

namespace ChatConn

variable (c : ChatConn)

/-- The connection after a broadcast. -/
def hears (message : Bytes) : ChatConn :=
  if c.listed = true ∧ c.state = .kConnected then { c with sent := c.sent ++ frame message }
  else c

theorem told_eq {message : Bytes} (h : message.length ≤ maxLength) :
    c.told message = .ok (c.hears message) := by
  obtain ⟨buf, hbuf, hcontent⟩ := send_ok h
  unfold told hears send
  by_cases hlisted : c.listed = true
  · rw [if_pos hlisted, hbuf, ok_bind, hcontent]
    simp [hlisted]
  · rw [if_neg hlisted, if_neg fun hc => hlisted hc.1]
    rfl

@[simp] theorem hears_input (message : Bytes) : (c.hears message).input = c.input := by
  unfold hears
  split_ifs <;> rfl

theorem hears_setInput (message : Bytes) (input input' : ValidBuffer) :
    { ({ c with input := input }).hears message with input := input' } =
      { c.hears message with input := input' } := by
  unfold hears
  by_cases h : c.listed = true ∧ c.state = .kConnected
  · simp only [if_pos h]
  · simp only [if_neg h]

end ChatConn

namespace ChatServer

variable {s : ChatServer} {i : ℕ}

/-- The server after a message of the connection `i`, whose input is then `input`. -/
def said (s : ChatServer) (i : ℕ) (message : Bytes) (input : ValidBuffer) : ChatServer where
  conns := (s.conns.map (·.hears message)).modify i ({ · with input := input })
  log := s.log ++ [(i, message)]

theorem mapM_told (conns : List ChatConn) {message : Bytes} (h : message.length ≤ maxLength) :
    conns.mapM (ChatConn.told · message) = .ok (conns.map (·.hears message)) := by
  induction conns with
  | nil => rfl
  | cons c conns ih =>
    rw [List.mapM_cons, c.told_eq h, ok_bind, ih, ok_bind]
    rfl

theorem onStringMessage_eq {message : Bytes} (h : message.length ≤ maxLength)
    (input input' : ValidBuffer) :
    ∃ u, (s.modify i ({ · with input := input })).onStringMessage i message = .ok u ∧
      u.modify i ({ · with input := input' }) = s.said i message input' := by
  refine ⟨⟨(s.conns.modify i ({ · with input := input })).map (·.hears message),
    s.log ++ [(i, message)]⟩, ?_, ?_⟩
  · rw [onStringMessage, modify, mapM_told _ h]
    rfl
  · simp only [modify, said, ChatServer.mk.injEq, and_true]
    refine List.ext_getElem? fun j => ?_
    simp only [List.getElem?_modify, List.getElem?_map]
    cases s.conns[j]? with
    | none => rfl
    | some c =>
      by_cases hj : i = j
      · simp only [if_pos hj]
        exact congrArg some (c.hears_setInput message input input')
      · simp only [if_neg hj]
        rfl

/-- The message that complete content starts with. -/
def firstMessage (xs : Bytes) : Bytes := (xs.drop kHeaderLen).take (header xs).toNat

theorem length_firstMessage {xs : Bytes} (h : Complete xs) :
    (firstMessage xs).length ≤ maxLength := by
  obtain ⟨hlen, hok, -⟩ := h
  have hle : header xs ≤ maxLength := Int.not_lt.mp fun hlt => hok ⟨hlen, .inl hlt⟩
  refine Nat.le_trans (List.length_take_le _ _) ?_
  omega

/-- The loop by the content of the buffer. -/
theorem onMessage_succ {c : ChatConn} (hc : s.conns[i]? = some c) (fuel : ℕ) :
    s.onMessage i (fuel + 1) =
      if Complete c.input.content then
        (s.said i (firstMessage c.input.content)
          ((c.input.retrieve kHeaderLen).retrieve (header c.input.content).toNat)).onMessage i fuel
      else if Refused c.input.content then .ok (s.modify i (ChatConn.shutdown · s.log.length))
      else .ok s := by
  have hread := c.input.length_content
  rw [onMessage, hc]
  by_cases hlen : kHeaderLen ≤ c.input.readableBytes
  · have hheader : slice c.input.raw.buffer c.input.raw.peek (c.input.raw.peek + 4) =
        c.input.content.take kHeaderLen := c.input.valid.slice_peek_eq_take hlen
    have hbe32 : (networkToHost (ofObject 4 (c.input.content.take kHeaderLen))).toInt =
        header c.input.content := rfl
    simp only [if_pos hlen, hheader, hbe32]
    by_cases hbad : maxLength < header c.input.content ∨ header c.input.content < 0
    · have hrefused : Refused c.input.content := ⟨by rwa [hread], hbad⟩
      rw [if_pos hbad, if_neg fun hc => hc.2.1 hrefused, if_pos hrefused]
    · have hok : ¬Refused c.input.content := fun hr => hbad hr.2
      rw [if_neg hbad]
      by_cases hfit : (header c.input.content).toNat + kHeaderLen ≤ c.input.readableBytes
      · have hcomplete : Complete c.input.content := ⟨by rwa [hread], hok, by rwa [hread]⟩
        have hrest : (header c.input.content).toNat ≤
            (c.input.retrieve kHeaderLen).readableBytes := by
          rw [← ValidBuffer.length_content, ValidBuffer.content_retrieve, List.length_drop, hread]
          omega
        have hafter : (c.input.retrieve kHeaderLen).raw.content =
            c.input.content.drop kHeaderLen := c.input.content_retrieve kHeaderLen
        have hmessage := (c.input.retrieve kHeaderLen).valid.slice_peek_eq_take hrest
        rw [hafter] at hmessage
        obtain ⟨u, hu, hsaid⟩ := @onStringMessage_eq s i _ (length_firstMessage hcomplete)
          (c.input.retrieve kHeaderLen)
          ((c.input.retrieve kHeaderLen).retrieve (header c.input.content).toNat)
        rw [if_pos hfit, if_pos hcomplete, hmessage]
        change (_ >>= _) = _
        rw [← hsaid]
        exact (congrArg (· >>= _) hu)
      · rw [if_neg hfit, if_neg fun hc => hfit (by rw [← hread]; exact hc.2.2), if_neg hok]
  · have hshort : ¬kHeaderLen ≤ c.input.content.length := by rwa [hread]
    simp only [if_neg hlen]
    rw [if_neg fun hc => hshort hc.1, if_neg fun hr => hshort hr.1]

end ChatServer

/-! ## The invariant -/

/-- What holds of the connection `j` : it is told the messages of its segment, and the messages of
the log that came from it were read off what it has received. -/
structure ChatConn.Inv (log : List (ℕ × Bytes)) (j : ℕ) (c : ChatConn) : Prop where
  active : c.left = none ↔ c.state = .kConnected
  listed : c.state = .kConnected → c.listed = true
  joined : c.joined ≤ c.left.getD log.length
  left : c.left.getD log.length ≤ log.length
  sent : c.sent = stream (c.segment log)
  reads : codecReader.Reads ([], c.received) (messagesOf j log, c.input.content)

/-- What every step keeps. The content of the connections that are not `busy` has been read as far
as it can be. -/
structure ChatServer.Inv (busy : ℕ → Prop) (s : ChatServer) : Prop where
  conn : ∀ (j : ℕ) (c : ChatConn), s.conns[j]? = some c → c.Inv s.log j
  settled : ∀ (j : ℕ) (c : ChatConn), s.conns[j]? = some c → ¬busy j →
    ¬Complete c.input.content
  senders : ∀ e ∈ s.log, e.1 < s.conns.length
  short : ∀ e ∈ s.log, e.2.length ≤ maxLength

theorem messagesOf_concat (j : ℕ) (log : List (ℕ × Bytes)) (e : ℕ × Bytes) :
    messagesOf j (log ++ [e]) = messagesOf j log ++ if e.1 = j then [e.2] else [] := by
  rw [messagesOf, messagesOf, List.filter_append, List.map_append]
  by_cases h : e.1 = j <;> simp [h]

namespace ChatConn

variable {log : List (ℕ × Bytes)} {j : ℕ} {c : ChatConn}

theorem Inv.new (hnone : messagesOf j log = []) : (ChatConn.new log.length).Inv log j where
  active := iff_of_true rfl rfl
  listed _ := rfl
  joined := Nat.le_refl _
  left := Nat.le_refl _
  sent := by simp [ChatConn.new, segment, stream]
  reads := by
    rw [hnone]
    exact (stops_nil []).1

/-- A connection that has left does not see what is added to the log. -/
theorem segment_concat_of_left (h : c.Inv log j) (hleft : c.left ≠ none) (e : ℕ × Bytes) :
    c.segment (log ++ [e]) = c.segment log := by
  obtain ⟨n, hn⟩ := Option.ne_none_iff_exists'.mp hleft
  have hle := h.left
  rw [hn, Option.getD_some] at hle
  simp only [segment, hn, Option.getD_some, List.map_append]
  rw [List.take_append_of_le_length (by rwa [List.length_map])]

theorem segment_concat_of_none (h : c.Inv log j) (hleft : c.left = none) (e : ℕ × Bytes) :
    c.segment (log ++ [e]) = c.segment log ++ [e.2] := by
  have hle := h.joined
  rw [hleft, Option.getD_none] at hle
  simp only [segment, hleft, Option.getD_none, List.map_append, List.length_append]
  rw [List.take_of_length_le (by simp), List.take_of_length_le (by simp),
    List.drop_append_of_le_length (by rwa [List.length_map])]
  rfl

/-- A broadcast, after which the input of the connection is `input`. -/
theorem Inv.hears (h : c.Inv log j) (e : ℕ × Bytes) {input : ValidBuffer}
    (hreads : codecReader.Reads ([], c.received) (messagesOf j (log ++ [e]), input.content)) :
    ({ c.hears e.2 with input := input } : ChatConn).Inv (log ++ [e]) j := by
  have hlen : (log ++ [e]).length = log.length + 1 := by simp
  have hjoined := h.joined
  have hle := h.left
  unfold ChatConn.hears
  by_cases hactive : c.listed = true ∧ c.state = .kConnected
  · have hleft := h.active.mpr hactive.2
    rw [if_pos hactive]
    refine ⟨h.active, h.listed, ?_, ?_, ?_, hreads⟩
    · rw [hleft] at hjoined ⊢
      simp only [Option.getD_none] at hjoined ⊢
      omega
    · rw [hleft]
      exact Nat.le_refl _
    · have hsegment := segment_concat_of_none h hleft e
      show c.sent ++ frame e.2 = stream (c.segment (log ++ [e]))
      rw [hsegment, h.sent, stream, stream, List.flatMap_append, List.flatMap_singleton]
  · have hleft : c.left ≠ none := fun hnone =>
      hactive ⟨h.listed (h.active.mp hnone), h.active.mp hnone⟩
    obtain ⟨n, hn⟩ := Option.ne_none_iff_exists'.mp hleft
    rw [if_neg hactive]
    refine ⟨h.active, h.listed, ?_, ?_, ?_, hreads⟩
    · rw [hn] at hjoined ⊢
      exact hjoined
    · rw [hn, Option.getD_some] at hle
      rw [hn, Option.getD_some, hlen]
      exact Nat.le_succ_of_le hle
    · show c.sent = stream (c.segment (log ++ [e]))
      rw [segment_concat_of_left h hleft e, h.sent]

theorem Inv.shutdown (h : c.Inv log j) : (c.shutdown log.length).Inv log j := by
  unfold ChatConn.shutdown
  split_ifs with hstate
  · have hleft := h.active.mpr hstate
    have hjoined := h.joined
    have hsent := h.sent
    rw [hleft, Option.getD_none] at hjoined
    rw [segment, hleft, Option.getD_none] at hsent
    exact ⟨by simp, by simp, hjoined, Nat.le_refl _, hsent, h.reads⟩
  · exact h

theorem Inv.close (h : c.Inv log j) : (c.close log.length).Inv log j := by
  exact ⟨by simp [ChatConn.close], by simp [ChatConn.close], h.joined, h.left, h.sent, h.reads⟩

end ChatConn

namespace ChatServer

variable {s : ChatServer} {i j : ℕ} {busy busy' : ℕ → Prop}

theorem getElem?_modify (s : ChatServer) (i j : ℕ) (f : ChatConn → ChatConn) :
    (s.modify i f).conns[j]? = if i = j then s.conns[j]?.map f else s.conns[j]? := by
  rw [modify, List.getElem?_modify]
  split_ifs
  · rfl
  · exact Option.map_id'

/-- One connection changes. -/
theorem Inv.modify (h : s.Inv busy) {f : ChatConn → ChatConn}
    (hf : ∀ c, s.conns[i]? = some c → c.Inv s.log i →
      (f c).Inv s.log i ∧ (¬busy' i → ¬Complete (f c).input.content))
    (hbusy : ∀ j, j ≠ i → ¬busy' j → ¬busy j) : (s.modify i f).Inv busy' := by
  have hlength : (s.modify i f).conns.length = s.conns.length := List.length_modify ..
  have hcases : ∀ j c, (s.modify i f).conns[j]? = some c →
      (i ≠ j ∧ s.conns[j]? = some c) ∨ (i = j ∧ ∃ c₀, s.conns[j]? = some c₀ ∧ f c₀ = c) := by
    intro j c hc
    rw [getElem?_modify] at hc
    split_ifs at hc with hij
    · obtain ⟨c₀, hc₀, hfc⟩ := Option.map_eq_some_iff.mp hc
      exact .inr ⟨hij, c₀, hc₀, hfc⟩
    · exact .inl ⟨hij, hc⟩
  refine ⟨fun j c hc => ?_, fun j c hc hnot => ?_, ?_, h.short⟩
  · rcases hcases j c hc with ⟨-, hc⟩ | ⟨rfl, c₀, hc₀, rfl⟩
    · exact h.conn j c hc
    · exact (hf c₀ hc₀ (h.conn i c₀ hc₀)).1
  · rcases hcases j c hc with ⟨hij, hc⟩ | ⟨rfl, c₀, hc₀, rfl⟩
    · exact h.settled j c hc (hbusy j (Ne.symm hij) hnot)
    · exact (hf c₀ hc₀ (h.conn i c₀ hc₀)).2 hnot
  · rw [hlength]
    exact h.senders

theorem said_cases {message : Bytes} {input : ValidBuffer} {c : ChatConn}
    (hc : (s.said i message input).conns[j]? = some c) :
    ∃ c₀, s.conns[j]? = some c₀ ∧ ((i = j ∧ c = { c₀.hears message with input := input }) ∨
      (i ≠ j ∧ c = c₀.hears message)) := by
  simp only [ChatServer.said, List.getElem?_modify, List.getElem?_map] at hc
  cases hc₀ : s.conns[j]? with
  | none =>
    rw [hc₀] at hc
    cases hc
  | some c₀ =>
    refine ⟨c₀, rfl, ?_⟩
    rw [hc₀] at hc
    by_cases hij : i = j
    · simp only [if_pos hij] at hc
      exact .inl ⟨hij, (Option.some.inj hc).symm⟩
    · simp only [if_neg hij] at hc
      exact .inr ⟨hij, (Option.some.inj hc).symm⟩

/-- A message is taken off the input of the connection `i` and broadcast. -/
theorem Inv.said (h : s.Inv (· = i)) {c : ChatConn} (hc : s.conns[i]? = some c)
    (hcomplete : Complete c.input.content) :
    (s.said i (firstMessage c.input.content)
      ((c.input.retrieve kHeaderLen).retrieve (header c.input.content).toNat)).Inv (· = i) := by
  have hlength : (s.said i (firstMessage c.input.content)
      ((c.input.retrieve kHeaderLen).retrieve (header c.input.content).toNat)).conns.length =
      s.conns.length := by simp [ChatServer.said]
  have hstep : codecReader.step (messagesOf i s.log) c.input.content =
      some (messagesOf i (s.log ++ [(i, firstMessage c.input.content)]),
        ((c.input.retrieve kHeaderLen).retrieve (header c.input.content).toNat).content) := by
    rw [messagesOf_concat, if_pos rfl]
    simp [codecReader, hcomplete, firstMessage]
  refine ⟨fun j c' hc' => ?_, fun j c' hc' hj => ?_, fun e he => ?_, fun e he => ?_⟩
  · obtain ⟨c₀, hc₀, ⟨rfl, rfl⟩ | ⟨hij, rfl⟩⟩ := said_cases hc'
    · obtain rfl := Option.some.inj (hc.symm.trans hc₀)
      exact (h.conn i c hc).hears _ ((h.conn i c hc).reads.tail hstep)
    · have hreads : codecReader.Reads ([], c₀.received)
          (messagesOf j (s.log ++ [(i, firstMessage c.input.content)]), c₀.input.content) := by
        rw [messagesOf_concat, if_neg hij, List.append_nil]
        exact (h.conn j c₀ hc₀).reads
      have hinv := (h.conn j c₀ hc₀).hears _ hreads
      rwa [← c₀.hears_input (firstMessage c.input.content)] at hinv
  · obtain ⟨c₀, hc₀, ⟨hij, -⟩ | ⟨hij, rfl⟩⟩ := said_cases hc'
    · exact absurd hij.symm hj
    · rw [c₀.hears_input]
      exact h.settled j c₀ hc₀ hj
  · rw [hlength]
    rcases List.mem_append.mp he with he | he
    · exact h.senders e he
    · obtain rfl := List.mem_singleton.mp he
      exact (List.getElem?_eq_some_iff.mp hc).1
  · rcases List.mem_append.mp he with he | he
    · exact h.short e he
    · obtain rfl := List.mem_singleton.mp he
      exact length_firstMessage hcomplete

/-- The loop of `onMessage` ends, and the content has been read as far as it can be. -/
theorem Inv.onMessage {fuel : ℕ} (h : s.Inv (· = i)) {c : ChatConn} (hc : s.conns[i]? = some c)
    (hfuel : c.input.readableBytes < fuel) :
    ∃ u, s.onMessage i fuel = .ok u ∧ u.Inv fun _ => False := by
  induction fuel generalizing s c with
  | zero => exact absurd hfuel (Nat.not_lt_zero _)
  | succ fuel ih =>
    rw [onMessage_succ hc]
    split_ifs with hcomplete hrefused
    · have hconn : (s.said i (firstMessage c.input.content)
          ((c.input.retrieve kHeaderLen).retrieve (header c.input.content).toNat)).conns[i]? =
          some { c.hears (firstMessage c.input.content) with
            input := (c.input.retrieve kHeaderLen).retrieve (header c.input.content).toNat } := by
        simp only [ChatServer.said, List.getElem?_modify, List.getElem?_map, hc]
        rfl
      refine ih (h.said hc hcomplete) hconn ?_
      have hheader := hcomplete.1
      rw [← ValidBuffer.length_content, ValidBuffer.content_retrieve, ValidBuffer.content_retrieve,
        List.length_drop, List.length_drop]
      rw [← ValidBuffer.length_content] at hfuel
      unfold kHeaderLen at *
      omega
    · refine ⟨_, rfl, h.modify (fun c' hc' hinv => ⟨hinv.shutdown, fun _ => ?_⟩) fun j hj _ => hj⟩
      obtain rfl := Option.some.inj (hc.symm.trans hc')
      have hinput : (c.shutdown s.log.length).input = c.input := by
        unfold ChatConn.shutdown
        split_ifs <;> rfl
      rwa [hinput]
    · refine ⟨s, rfl, h.conn, fun j c' hc' _ => ?_, h.senders, h.short⟩
      by_cases hj : j = i
      · subst hj
        obtain rfl := Option.some.inj (hc.symm.trans hc')
        exact hcomplete
      · exact h.settled j c' hc' hj

theorem Inv.new : ChatServer.new.Inv fun _ => False where
  conn _ _ hc := by cases hc
  settled _ _ hc := by cases hc
  senders _ he := by cases he
  short _ he := by cases he

/-- No step fails, and every step keeps the invariant. -/
theorem Inv.step : chatServer.Keeps (Inv fun _ => False) := by
  intro s l h he
  cases l with
  | connect =>
    have hcases : ∀ {j : ℕ} {c : ChatConn}, (s.conns ++ [.new s.log.length])[j]? = some c →
        s.conns[j]? = some c ∨ (j = s.conns.length ∧ c = .new s.log.length) := by
      intro j c hc
      rw [List.getElem?_append] at hc
      split_ifs at hc with hlt
      · exact .inl hc
      · rw [List.getElem?_singleton] at hc
        split_ifs at hc with hzero
        exact .inr ⟨by omega, (Option.some.inj hc).symm⟩
    refine ⟨_, rfl, fun j c hc => ?_, fun j c hc hnot => ?_, fun e he => ?_, h.short⟩
    · rcases hcases hc with hc | ⟨rfl, rfl⟩
      · exact h.conn j c hc
      · refine .new (List.map_eq_nil_iff.mpr (List.filter_eq_nil_iff.mpr fun e he => ?_))
        have hlt := h.senders e he
        simp only [decide_eq_true_eq]
        omega
    · rcases hcases hc with hc | ⟨rfl, rfl⟩
      · exact h.settled j c hc hnot
      · intro hcomplete
        have hlen := hcomplete.1
        rw [ChatConn.new, ValidBuffer.content_new] at hlen
        exact absurd hlen (by decide)
    · simp only [List.length_append, List.length_singleton]
      exact Nat.lt_succ_of_lt (h.senders e he)
  | receive i chunk =>
    obtain ⟨c, hc, -⟩ := Option.map_eq_some_iff.mp he
    simp only [chatServer, ChatServer.receive, hc]
    have hmid : (s.modify i fun c => { c with
        input := c.input.append chunk, received := c.received ++ chunk }).Inv (· = i) := by
      refine h.modify (fun c' hc' hinv => ⟨?_, fun hnot => absurd rfl hnot⟩) fun _ _ _ hf => hf
      refine ⟨hinv.active, hinv.listed, hinv.joined, hinv.left, hinv.sent, ?_⟩
      rw [ValidBuffer.content_append]
      exact hinv.reads.append chunk
    refine hmid.onMessage (c := { c with
      input := c.input.append chunk, received := c.received ++ chunk }) ?_ (Nat.lt_succ_self _)
    rw [getElem?_modify, if_pos rfl, hc]
    rfl
  | close i =>
    refine ⟨_, rfl, h.modify (fun c hc hinv => ⟨hinv.close, fun _ => ?_⟩) fun _ _ _ hf => hf⟩
    exact h.settled i c hc id

end ChatServer

/-! ## Every run -/

/-- Whatever the clients send and in whatever chunks it arrives, no step fails, and there is one
order of all messages, the log. What the log has of a client are the messages it sent that have
arrived, in the order it sent them. The server gives the connection of a client the messages of the
log between its joining and its leaving to send. On a connection whose direct writes fit, however
the bytes that the kernel has taken arrive, the codec of the client hands out the first of these
messages in order, and all of them once all bytes have arrived. -/
theorem chat_total_order {ls : List ChatStep} {t : ChatServer} (hrun : chatServer.Run .new ls t) :
    (∀ l, chatServer.enabled t l → ∃ u, chatServer.exec t l = .ok u) ∧
    ∀ (i : ℕ) (c : ChatConn), t.conns[i]? = some c →
      (∀ ms : List Bytes, (∀ m ∈ ms, m.length ≤ maxLength) → c.received <+: stream ms →
        messagesOf i t.log = arrived ms c.received.length) ∧
      c.sent = stream (c.segment t.log) ∧
      ∀ conn : TcpRun, conn.WellWritten → conn.sent = c.sent →
        ∀ (chunks : List (Bytes × Timestamp)) (input : ValidBuffer), input.content = [] →
          received chunks <+: conn.world.accepted →
          ∃ s, CodecConn.deliver chunks ⟨input, [], 0⟩ = some s ∧ s.shutdowns = 0 ∧
            s.messages.map Prod.fst <+: c.segment t.log ∧
            (received chunks = conn.sent → s.messages.map Prod.fst = c.segment t.log) := by
  have h := ChatServer.Inv.step.run .new hrun
  refine ⟨fun l he => ChatServer.Inv.step.safe .new hrun he, fun i c hc => ?_⟩
  have hconn := h.conn i c hc
  have hshort : ∀ m ∈ c.segment t.log, m.length ≤ maxLength := by
    intro m hm
    obtain ⟨e, he, rfl⟩ := List.mem_map.mp (List.mem_of_mem_take (List.mem_of_mem_drop hm))
    exact h.short e he
  refine ⟨fun ms hms hstream => ?_, hconn.sent, fun conn hwritten hsent chunks input hempty
    haccepted => ?_⟩
  · obtain ⟨rest, hrest, -⟩ := stops_stream hms c.received.length []
    rw [← List.prefix_iff_eq_take.mp hstream] at hrest
    have hstops : codecReader.Stops ([], c.received) (messagesOf i t.log, c.input.content) :=
      ⟨hconn.reads, if_neg (h.settled i c hc id)⟩
    exact congrArg Prod.fst (hrest.unique hstops)
  · have hchunks := haccepted.trans hwritten.accepted_isPrefix
    rw [hsent, hconn.sent] at hchunks ⊢
    obtain ⟨s, hdeliver, hshutdowns, hmessages, -⟩ :=
      CodecConn.deliver_arrived hshort hempty hchunks
    refine ⟨s, hdeliver, hshutdowns, hmessages ▸ arrived_isPrefix _ _, fun hall => ?_⟩
    rw [hmessages, hall, arrived_all (Nat.le_refl _)]

/-- The second client joins while a message of the first one is on its way. -/
def lateClient : List ChatStep :=
  [.connect, .receive 0 [0, 0, 0, 2, 97], .connect, .receive 0 [98]]

/-- Its connection is blocked at first, and then the kernel takes the frame in two pieces. -/
def lateWrites : List TcpStep :=
  [.sendInLoop (frame [97, 98]) (.failed .EWOULDBLOCK), .handleWrite (.wrote 3),
    .handleWrite (.wrote 3)]

set_option maxRecDepth 20000 in
theorem chat_total_order_late_client : ∃ t c conn s,
    chatServer.Run .new lateClient t ∧ t.log = [(0, [97, 98])] ∧ t.conns[1]? = some c ∧
    tcpMachine.Run (.established 7 false false 64) lateWrites conn ∧
    conn.world.accepted = frame [97, 98] ∧
    CodecConn.deliver [([0, 0], 1), ([0, 2, 97, 98], 2)] ⟨.new, [], 0⟩ = some s ∧
    s.messages.map Prod.fst = [[97, 98]] := by
  obtain ⟨t, c, hrun, hlog, hc, hsegment⟩ : ∃ t c, chatServer.Run .new lateClient t ∧
      t.log = [(0, [97, 98])] ∧ t.conns[1]? = some c ∧ c.segment t.log = [[97, 98]] :=
    ⟨_, _, .of_play rfl, rfl, rfl, rfl⟩
  obtain ⟨conn, hconn, hsent, haccepted⟩ : ∃ conn,
      ((tcpMachine.restrict BlockingWrites).restrict DirectWriteFits).Run
        (.established 7 false false 64) lateWrites conn ∧
      conn.sent = stream [[97, 98]] ∧ conn.world.accepted = frame [97, 98] :=
    ⟨_, .of_play rfl, rfl, rfl⟩
  have hwritten : conn.WellWritten :=
    ⟨_, _, TcpRun.established_fresh 7 false false 64, by decide, hconn⟩
  obtain ⟨-, hstream, hclient⟩ := (chat_total_order hrun).2 1 c hc
  rw [hsegment] at hstream hclient
  have hreceived : received [([0, 0], (1 : Timestamp)), ([0, 2, 97, 98], 2)] = frame [97, 98] := rfl
  obtain ⟨s, hdeliver, -, -, hall⟩ := hclient conn hwritten (hsent.trans hstream.symm)
    [([0, 0], 1), ([0, 2, 97, 98], 2)] .new ValidBuffer.content_new
    (by rw [haccepted, hreceived])
  exact ⟨t, c, conn, s, hrun, hlog, hc, hconn.of_restrict.of_restrict, haccepted, hdeliver,
    hall (hreceived.trans hsent.symm)⟩

end Tmuduo
