import Tmuduo.BufferInt
import Tmuduo.Incremental
import Tmuduo.Timestamp

/-!
# The length-header codec

`LengthHeaderCodec` of `examples/chat/codec.h` sends a message as its length, four bytes in the
order of the network, followed by its bytes. `onMessage` takes the complete messages off the input
buffer and gives each to the message callback; the callback and `shutdown` are recorded in
`CodecConn`. A length is an `int32_t`, and one that is negative or above `maxLength` is refused.

`codecReader` is `onMessage` on the content of the buffer alone, as a `Reader`, so where it stops
does not depend on how the stream arrived. `codec_round_trip` says that the messages come out as
they were sent, each with the chunk that holds its last byte.
-/

set_option autoImplicit false

namespace Tmuduo

namespace LengthHeaderCodec

def kHeaderLen : ℕ := 4

/-- The largest length that `onMessage` accepts. -/
def maxLength : ℕ := 65536

/-! ## Sending -/

/-- The buffer that `LengthHeaderCodec::send` gives to `TcpConnection::send`. -/
def send (message : Bytes) : Except BufferAssert Buffer := do
  let buf ← Buffer.ctor
  let buf ← buf.append message
  let len : BitVec 32 := BitVec.ofNat 32 message.length
  let be32 := hostToNetwork (n := 4) len
  buf.prepend (objectBytes (n := 4) be32)

/-- A message on the wire. -/
def frame (message : Bytes) : Bytes :=
  bigEndian kHeaderLen message.length ++ message

@[simp] theorem length_frame (message : Bytes) :
    (frame message).length = kHeaderLen + message.length := by
  simp [frame]

theorem toInt_length {message : Bytes} (h : message.length ≤ maxLength) :
    (BitVec.ofNat 32 message.length).toInt = message.length := by
  unfold maxLength at h
  rw [BitVec.toInt_eq_toNat_of_lt]
  · rw [BitVec.toNat_ofNat, Nat.mod_eq_of_lt (by omega)]
  · rw [BitVec.toNat_ofNat, Nat.mod_eq_of_lt (by omega)]
    omega

/-- Making space in a buffer that nothing was retrieved from leaves the room in front. -/
theorem prependableBytes_makeSpace {b b' : Buffer} {len : ℕ}
    (hb : b.prependableBytes = Buffer.kCheapPrepend) (h : b.makeSpace len = .ok b') :
    b'.prependableBytes = Buffer.kCheapPrepend := by
  unfold Buffer.makeSpace at h
  split_ifs at h
  · obtain rfl := Except.ok.inj h
    exact hb
  · obtain ⟨-, h⟩ := check_bind_eq_ok_iff.mp h
    obtain ⟨-, h⟩ := check_bind_eq_ok_iff.mp h
    obtain rfl := Except.ok.inj h
    rfl

theorem prependableBytes_append {b b' : Buffer} {data : Bytes}
    (hb : b.prependableBytes = Buffer.kCheapPrepend) (h : b.append data = .ok b') :
    b'.prependableBytes = Buffer.kCheapPrepend := by
  obtain ⟨b₁, h₁, h⟩ := bind_eq_ok_iff.mp h
  obtain rfl := Except.ok.inj h
  unfold Buffer.ensureWritableBytes at h₁
  split_ifs at h₁
  · obtain ⟨b₂, h₂, h₁⟩ := bind_eq_ok_iff.mp h₁
    obtain ⟨-, h₁⟩ := check_bind_eq_ok_iff.mp h₁
    obtain rfl := Except.ok.inj h₁
    have hroom := prependableBytes_makeSpace hb h₂
    exact hroom
  · obtain ⟨-, h₁⟩ := check_bind_eq_ok_iff.mp h₁
    obtain rfl := Except.ok.inj h₁
    exact hb

/-- The header fits in the room in front, whatever the size of the message. -/
theorem send_ok {message : Bytes} (h : message.length ≤ maxLength) :
    ∃ buf, send message = .ok buf ∧ buf.content = frame message := by
  obtain ⟨b₁, h₁, hv₁, hc₁⟩ := Buffer.new_valid.append message
  rw [Buffer.content_new, List.nil_append] at hc₁
  have hroom := prependableBytes_append rfl h₁
  have hfit : (objectBytes (n := 4) (hostToNetwork (BitVec.ofNat 32 message.length))).length ≤
      b₁.prependableBytes := by
    rw [length_objectBytes, hroom]
    decide
  obtain ⟨b₂, h₂, -, hc₂⟩ := hv₁.prepend hfit
  refine ⟨b₂, ?_, ?_⟩
  · simp only [send, Buffer.ctor_eq, h₁, ok_bind, h₂]
  · rw [hc₂, hc₁, Buffer.objectBytes_hostToNetwork, toInt_length h]
    rfl

/-! ## Receiving -/

/-- A connection with the codec : its input buffer, the messages given to the callback with their
times, and how often `shutdown` was called. -/
structure CodecConn where
  input : ValidBuffer
  messages : List (Bytes × Timestamp)
  shutdowns : ℕ

namespace CodecConn

/-- `LengthHeaderCodec::onMessage`, with at most `fuel` rounds of its loop. `none` : the loop has
not ended. -/
def onMessage (receiveTime : Timestamp) : ℕ → CodecConn → Option CodecConn
  | 0, _ => none
  | fuel + 1, s =>
    if kHeaderLen ≤ s.input.readableBytes then
      let buf := s.input.raw
      let be32 := ofObject 4 (slice buf.buffer buf.peek (buf.peek + 4))
      let len := (networkToHost be32).toInt
      if maxLength < len ∨ len < 0 then some { s with shutdowns := s.shutdowns + 1 }
      else if len.toNat + kHeaderLen ≤ s.input.readableBytes then
        let input := s.input.retrieve kHeaderLen
        let message := slice input.raw.buffer input.raw.peek (input.raw.peek + len.toNat)
        onMessage receiveTime fuel
          { s with
            input := input.retrieve len.toNat
            messages := s.messages ++ [(message, receiveTime)] }
      else some s
    else some s

/-- The chunks arrive one at a time, each is appended to the input buffer and `onMessage` is
called. Each round takes a header off the buffer, so more rounds than readable bytes are not
needed. -/
def deliver : List (Bytes × Timestamp) → CodecConn → Option CodecConn
  | [], s => some s
  | (chunk, receiveTime) :: chunks, s => do
    let s := { s with input := s.input.append chunk }
    let s' ← onMessage receiveTime (s.input.readableBytes + 1) s
    deliver chunks s'

end CodecConn

/-! ## The reader -/

/-- The length that the content starts with. -/
def header (xs : Bytes) : ℤ :=
  (networkToHost (ofObject 4 (xs.take kHeaderLen))).toInt

/-- The content starts with a length that `onMessage` does not accept. -/
def Refused (xs : Bytes) : Prop :=
  kHeaderLen ≤ xs.length ∧ (maxLength < header xs ∨ header xs < 0)

instance (xs : Bytes) : Decidable (Refused xs) :=
  inferInstanceAs (Decidable (_ ∧ _))

/-- The content starts with a complete message. -/
def Complete (xs : Bytes) : Prop :=
  kHeaderLen ≤ xs.length ∧ ¬Refused xs ∧ (header xs).toNat + kHeaderLen ≤ xs.length

instance (xs : Bytes) : Decidable (Complete xs) :=
  inferInstanceAs (Decidable (_ ∧ _ ∧ _))

theorem header_append {xs : Bytes} (h : kHeaderLen ≤ xs.length) (ys : Bytes) :
    header (xs ++ ys) = header xs := by
  rw [header, header, List.take_append_of_le_length h]

theorem Complete.append {xs : Bytes} (h : Complete xs) (ys : Bytes) : Complete (xs ++ ys) := by
  obtain ⟨hlen, hok, hfit⟩ := h
  unfold Complete Refused at *
  rw [header_append hlen, List.length_append]
  refine ⟨by omega, ?_, by omega⟩
  rintro ⟨-, hbad⟩
  exact hok ⟨hlen, hbad⟩

/-- One round of `onMessage` that gives a message to the callback. -/
def codecReader : Reader (List Bytes) UInt8 where
  step messages xs :=
    if Complete xs then
      some (messages ++ [(xs.drop kHeaderLen).take (header xs).toNat],
        (xs.drop kHeaderLen).drop (header xs).toNat)
    else none
  stable := by
    intro s t xs rest ys h
    split_ifs at h with hxs
    have hlen := hxs.1
    have hfit : (header xs).toNat ≤ (xs.drop kHeaderLen).length := by
      have := hxs.2.2
      rw [List.length_drop]
      omega
    simp only [Option.some.injEq, Prod.mk.injEq] at h ⊢
    obtain ⟨rfl, rfl⟩ := h
    rw [if_pos (hxs.append ys), header_append hlen, List.drop_append_of_le_length hlen,
      List.take_append_of_le_length hfit, List.drop_append_of_le_length hfit]
  shrinks := by
    intro s t xs rest h
    split_ifs at h with hxs
    obtain ⟨-, rfl⟩ := Prod.mk.inj (Option.some.inj h)
    have hlen := hxs.1
    unfold kHeaderLen at *
    simp only [List.length_drop]
    omega

namespace CodecConn

/-- What the reader sees of the connection. -/
def view (s : CodecConn) : List Bytes × Bytes :=
  (s.messages.map Prod.fst, s.input.content)

/-- The connection after a message of `len` bytes was given to the callback. -/
def taken (s : CodecConn) (receiveTime : Timestamp) (len : ℕ) : CodecConn :=
  { s with
    input := (s.input.retrieve kHeaderLen).retrieve len
    messages := s.messages ++ [((s.input.content.drop kHeaderLen).take len, receiveTime)] }

/-- The loop by the content of the buffer. -/
theorem onMessage_succ (receiveTime : Timestamp) (fuel : ℕ) (s : CodecConn) :
    onMessage receiveTime (fuel + 1) s =
      if Complete s.input.content then
        onMessage receiveTime fuel (s.taken receiveTime (header s.input.content).toNat)
      else if Refused s.input.content then some { s with shutdowns := s.shutdowns + 1 }
      else some s := by
  have hread := s.input.length_content
  rw [onMessage]
  by_cases hlen : kHeaderLen ≤ s.input.readableBytes
  · have hheader : slice s.input.raw.buffer s.input.raw.peek (s.input.raw.peek + 4) =
        s.input.content.take kHeaderLen := s.input.valid.slice_peek_eq_take hlen
    have hbe32 : (networkToHost (ofObject 4 (s.input.content.take kHeaderLen))).toInt =
        header s.input.content := rfl
    simp only [if_pos hlen, hheader, hbe32]
    by_cases hbad : maxLength < header s.input.content ∨ header s.input.content < 0
    · have hrefused : Refused s.input.content := ⟨by rwa [hread], hbad⟩
      rw [if_pos hbad, if_neg fun hc => hc.2.1 hrefused, if_pos hrefused]
    · have hok : ¬Refused s.input.content := fun hr => hbad hr.2
      rw [if_neg hbad]
      by_cases hfit : (header s.input.content).toNat + kHeaderLen ≤ s.input.readableBytes
      · have hcomplete : Complete s.input.content := ⟨by rwa [hread], hok, by rwa [hread]⟩
        have hrest : (header s.input.content).toNat ≤
            (s.input.retrieve kHeaderLen).readableBytes := by
          rw [← ValidBuffer.length_content, ValidBuffer.content_retrieve, List.length_drop, hread]
          omega
        have hafter : (s.input.retrieve kHeaderLen).raw.content =
            s.input.content.drop kHeaderLen := s.input.content_retrieve kHeaderLen
        have hmessage := (s.input.retrieve kHeaderLen).valid.slice_peek_eq_take hrest
        rw [hafter] at hmessage
        rw [if_pos hfit, if_pos hcomplete, hmessage]
        rfl
      · rw [if_neg hfit, if_neg fun hc => hfit (by rw [← hread]; exact hc.2.2), if_neg hok]
  · have hshort : ¬kHeaderLen ≤ s.input.content.length := by rwa [hread]
    rw [if_neg hlen, if_neg fun hc => hshort hc.1, if_neg fun hr => hshort hr.1]

theorem step_view {s : CodecConn} (receiveTime : Timestamp) (h : Complete s.input.content) :
    codecReader.step s.view.1 s.view.2 =
      some (s.taken receiveTime (header s.input.content).toNat).view := by
  simp [codecReader, view, taken, h]

/-- The loop ends where the reader stops, and `shutdown` is called only at a length that is not
accepted. -/
theorem onMessage_stops (receiveTime : Timestamp) :
    ∀ {fuel : ℕ} {s : CodecConn}, s.input.readableBytes < fuel →
      ∃ s', onMessage receiveTime fuel s = some s' ∧ codecReader.Stops s.view s'.view ∧
        (¬Refused s'.input.content → s'.shutdowns = s.shutdowns)
  | 0, s, h => absurd h (Nat.not_lt_zero _)
  | fuel + 1, s, h => by
    rw [onMessage_succ]
    split_ifs with hcomplete hrefused
    · have hstep := step_view receiveTime hcomplete
      have hshrinks : (s.taken receiveTime (header s.input.content).toNat).input.readableBytes <
          s.input.readableBytes := by
        rw [← ValidBuffer.length_content, ← ValidBuffer.length_content]
        exact codecReader.shrinks hstep
      obtain ⟨s', hloop, ⟨hreads, hnone⟩, hshutdowns⟩ :=
        onMessage_stops receiveTime (Nat.lt_of_lt_of_le hshrinks (Nat.le_of_lt_succ h))
      exact ⟨s', hloop, ⟨Relation.ReflTransGen.head hstep hreads, hnone⟩, hshutdowns⟩
    · exact ⟨_, rfl, .of_none (if_neg hcomplete), fun hok => absurd hrefused hok⟩
    · exact ⟨s, rfl, .of_none (if_neg hcomplete), fun _ => rfl⟩

end CodecConn

/-! ## The stream -/

/-- The messages one after the other on the wire. -/
def stream (ms : List Bytes) : Bytes :=
  ms.flatMap frame

/-- The messages whose last byte is among the first `n` bytes of the stream. -/
def arrived : List Bytes → ℕ → List Bytes
  | [], _ => []
  | m :: ms, n => if (frame m).length ≤ n then m :: arrived ms (n - (frame m).length) else []

theorem arrived_isPrefix (ms : List Bytes) (n : ℕ) : arrived ms n <+: ms := by
  induction ms generalizing n with
  | nil => exact List.prefix_rfl
  | cons m ms ih =>
    unfold arrived
    split_ifs
    · exact (List.prefix_cons_inj m).mpr (ih _)
    · exact List.nil_prefix

theorem lt_length_arrived_iff {ms : List Bytes} {n i : ℕ} (hi : i < ms.length) :
    i < (arrived ms n).length ↔ (stream (ms.take (i + 1))).length ≤ n := by
  induction ms generalizing n i with
  | nil => exact absurd hi (Nat.not_lt_zero i)
  | cons m ms ih =>
    have hsplit : (stream ((m :: ms).take (i + 1))).length =
        (frame m).length + (stream (ms.take i)).length := by
      rw [List.take_succ_cons, stream, List.flatMap_cons, List.length_append]
      rfl
    rw [hsplit, arrived]
    split_ifs with hm
    · cases i with
      | zero =>
        simp [stream]
        simpa using hm
      | succ i =>
        rw [List.length_cons, Nat.add_lt_add_iff_right, ih (Nat.lt_of_succ_lt_succ hi)]
        omega
    · simp only [List.length_nil, Nat.not_lt_zero, false_iff]
      omega

theorem arrived_all {ms : List Bytes} {n : ℕ} (h : (stream ms).length ≤ n) : arrived ms n = ms := by
  induction ms generalizing n with
  | nil => rfl
  | cons m ms ih =>
    rw [stream, List.flatMap_cons, List.length_append] at h
    change (frame m).length + (stream ms).length ≤ n at h
    rw [arrived, if_pos (by omega), ih (by omega)]

/-- The header of a frame is the length of its message. -/
theorem header_frame {m : Bytes} (hm : m.length ≤ maxLength) (rest : Bytes) :
    header (frame m ++ rest) = m.length := by
  have hbytes : (frame m ++ rest).take kHeaderLen =
      objectBytes (n := 4) (hostToNetwork (BitVec.ofNat 32 m.length)) := by
    rw [frame, List.append_assoc, List.take_left' (length_bigEndian _ _),
      Buffer.objectBytes_hostToNetwork, toInt_length hm]
    rfl
  rw [header, hbytes, ofObject_objectBytes, networkToHost, hostToNetwork, byteSwap_byteSwap]
  exact toInt_length hm

/-- A piece of a frame, long enough to hold the header, holds the length of the message. -/
theorem header_take_frame {m : Bytes} (hm : m.length ≤ maxLength) {n : ℕ}
    (hn : kHeaderLen ≤ ((frame m).take n).length) : header ((frame m).take n) = m.length := by
  rw [← header_append hn ((frame m).drop n), List.take_append_drop]
  simpa using header_frame hm []

theorem not_refused_of_header {m xs : Bytes} (hm : m.length ≤ maxLength)
    (h : kHeaderLen ≤ xs.length → header xs = m.length) : ¬Refused xs := by
  rintro ⟨hlen, hbad⟩
  rw [h hlen] at hbad
  omega

theorem step_frame {m : Bytes} (hm : m.length ≤ maxLength) (acc : List Bytes) (rest : Bytes) :
    codecReader.step acc (frame m ++ rest) = some (acc ++ [m], rest) := by
  have hheader := header_frame hm rest
  have hcomplete : Complete (frame m ++ rest) := by
    refine ⟨?_, not_refused_of_header hm fun _ => hheader, ?_⟩
    · rw [List.length_append, length_frame]
      omega
    · rw [hheader, List.length_append, length_frame, Int.toNat_natCast]
      omega
  have hdrop : (frame m ++ rest).drop kHeaderLen = m ++ rest := by
    rw [frame, List.append_assoc, List.drop_left' (length_bigEndian _ _)]
  simp [codecReader, hcomplete, hheader, hdrop]

theorem stops_nil (acc : List Bytes) : codecReader.Stops (acc, []) (acc, []) := by
  have hshort : ¬Complete [] := fun hc => absurd hc.1 (by decide)
  exact .of_none (by simp [codecReader, hshort])

/-- On the first bytes of the stream the reader gives the messages that have arrived, and what is
left is a piece of a frame. -/
theorem stops_stream {ms : List Bytes} (hlen : ∀ m ∈ ms, m.length ≤ maxLength) (n : ℕ)
    (acc : List Bytes) :
    ∃ rest, codecReader.Stops (acc, (stream ms).take n) (acc ++ arrived ms n, rest) ∧
      ¬Refused rest ∧ ((stream ms).length ≤ n → rest = []) := by
  induction ms generalizing n acc with
  | nil =>
    refine ⟨[], ?_, fun hr => absurd hr.1 (by decide), fun _ => rfl⟩
    simpa [stream, arrived] using stops_nil acc
  | cons m ms ih =>
    have hm := hlen m List.mem_cons_self
    have hstream : stream (m :: ms) = frame m ++ stream ms := List.flatMap_cons
    rw [hstream, List.take_append, List.length_append, arrived]
    split_ifs with hn
    · obtain ⟨rest, ⟨hreads, hnone⟩, hok, hall⟩ :=
        ih (fun m' hm' => hlen m' (List.mem_cons_of_mem m hm')) (n - (frame m).length) (acc ++ [m])
      have hstep := step_frame hm acc ((stream ms).take (n - (frame m).length))
      rw [List.append_assoc] at hreads hnone
      rw [List.take_of_length_le hn]
      exact ⟨rest, ⟨Relation.ReflTransGen.head hstep hreads, hnone⟩, hok, fun h => hall (by omega)⟩
    · -- The header may be there, the message is not.
      have hcut : (stream ms).take (n - (frame m).length) = [] := by
        rw [Nat.sub_eq_zero_of_le (by omega), List.take_zero]
      have hnone : ¬Complete ((frame m).take n) := by
        rintro ⟨hfour, -, hfit⟩
        rw [header_take_frame hm hfour, List.length_take, length_frame, Int.toNat_natCast] at hfit
        rw [length_frame] at hn
        omega
      rw [hcut, List.append_nil, List.append_nil]
      exact ⟨_, .of_none (if_neg hnone), not_refused_of_header hm (header_take_frame hm),
        fun h => absurd h (by omega)⟩

/-! ## The round trip -/

/-- The buffers of the messages hold their frames. -/
theorem mapM_send {ms : List Bytes} (hlen : ∀ m ∈ ms, m.length ≤ maxLength) :
    ∃ bufs, ms.mapM send = .ok bufs ∧ bufs.map Buffer.content = ms.map frame := by
  induction ms with
  | nil => exact ⟨[], rfl, rfl⟩
  | cons m ms ih =>
    obtain ⟨buf, hbuf, hc⟩ := send_ok (hlen m List.mem_cons_self)
    obtain ⟨bufs, hbufs, hcs⟩ := ih fun m' hm' => hlen m' (List.mem_cons_of_mem m hm')
    refine ⟨buf :: bufs, ?_, by rw [List.map_cons, List.map_cons, hc, hcs]⟩
    rw [List.mapM_cons, hbuf, ok_bind, hbufs, ok_bind]
    rfl

/-- The bytes of the chunks. -/
def received (chunks : List (Bytes × Timestamp)) : Bytes :=
  chunks.flatMap Prod.fst

namespace CodecConn

/-- After the chunks of a stream the connection is where the reader stops on what has arrived, and
it was not shut down. -/
theorem deliver_stops {ms : List Bytes} (hlen : ∀ m ∈ ms, m.length ≤ maxLength) :
    ∀ {chunks : List (Bytes × Timestamp)} {s : CodecConn} {xs : Bytes},
      codecReader.Stops ([], xs) s.view → xs ++ received chunks <+: stream ms →
      ∃ s', deliver chunks s = some s' ∧ codecReader.Stops ([], xs ++ received chunks) s'.view ∧
        s'.shutdowns = s.shutdowns
  | [], s, xs, h, _ => by
    rw [received, List.flatMap_nil, List.append_nil]
    exact ⟨s, rfl, h, rfl⟩
  | (chunk, receiveTime) :: chunks, s, xs, h, hstream => by
    have hcons : xs ++ received ((chunk, receiveTime) :: chunks) =
        (xs ++ chunk) ++ received chunks := by
      rw [received, List.flatMap_cons, List.append_assoc]
      rfl
    rw [hcons] at hstream ⊢
    let s₁ : CodecConn := { s with input := s.input.append chunk }
    obtain ⟨s₂, hcall, hstops, hshutdowns⟩ :=
      onMessage_stops receiveTime (Nat.lt_succ_self s₁.input.readableBytes)
    have hview : s₁.view = (s.view.1, s.view.2 ++ chunk) := by
      simp [s₁, view]
    rw [hview] at hstops
    replace hstops := (h.1.stops_append chunk _).mp hstops
    have htake := List.prefix_iff_eq_take.mp ((List.prefix_append _ _).trans hstream)
    obtain ⟨rest, hrest, hok, -⟩ := stops_stream hlen (xs ++ chunk).length []
    rw [← htake] at hrest
    have hsame := congrArg Prod.snd (hrest.unique hstops)
    obtain ⟨s', hdeliver, hend, hnone⟩ := deliver_stops hlen hstops hstream
    refine ⟨s', ?_, hend, hnone.trans (hshutdowns ?_)⟩
    · unfold deliver
      exact (congrArg (· >>= deliver chunks) hcall).trans hdeliver
    · rwa [show s₂.input.content = rest from hsame]

/-- After the first chunks of a stream the callback has got the messages that have arrived. -/
theorem deliver_arrived {ms : List Bytes} (hlen : ∀ m ∈ ms, m.length ≤ maxLength)
    {input : ValidBuffer} (hempty : input.content = []) {chunks : List (Bytes × Timestamp)}
    (hstream : received chunks <+: stream ms) :
    ∃ s, deliver chunks ⟨input, [], 0⟩ = some s ∧ s.shutdowns = 0 ∧
      s.messages.map Prod.fst = arrived ms (received chunks).length ∧
      ((stream ms).length ≤ (received chunks).length → s.input.content = []) := by
  have hstart : codecReader.Stops ([], []) (CodecConn.mk input [] 0).view := by
    have hview : (CodecConn.mk input [] 0).view = ([], []) := by
      simp [view, hempty]
    rw [hview]
    exact stops_nil []
  obtain ⟨s, hdeliver, hstops, hshutdowns⟩ := deliver_stops hlen hstart hstream
  obtain ⟨rest, hrest, -, hnone⟩ := stops_stream hlen (received chunks).length []
  rw [← List.prefix_iff_eq_take.mp hstream] at hrest
  obtain ⟨hmessages, hcontent⟩ := Prod.mk.inj (hrest.unique hstops)
  exact ⟨s, hdeliver, hshutdowns, hmessages, fun h => hcontent.trans (hnone h)⟩

end CodecConn

/-- For all messages of at most 65536 bytes, and all chunks that the stream of their buffers
arrives in, whatever empty buffer it arrives in : after each chunk the callback was invoked with
the first of the messages, in order and once each, up to the last one whose last byte has arrived,
and the connection was not shut down. After the last chunk it was invoked with all of them, and the
input buffer is empty. -/
theorem codec_round_trip (ms : List Bytes) (hlen : ∀ m ∈ ms, m.length ≤ 65536) :
    ∃ bufs, ms.mapM send = .ok bufs ∧
      ∀ (chunks : List (Bytes × Timestamp)) (input : ValidBuffer), input.content = [] →
        chunks.flatMap Prod.fst = bufs.flatMap Buffer.content →
        (∀ first rest, chunks = first ++ rest →
          ∃ s, CodecConn.deliver first ⟨input, [], 0⟩ = some s ∧ s.shutdowns = 0 ∧
            s.messages.map Prod.fst <+: ms ∧
            ∀ i < ms.length, (i < s.messages.length ↔
              ((bufs.take (i + 1)).flatMap Buffer.content).length ≤
                (first.flatMap Prod.fst).length)) ∧
        ∃ s, CodecConn.deliver chunks ⟨input, [], 0⟩ = some s ∧ s.messages.map Prod.fst = ms ∧
          s.input.content = [] := by
  obtain ⟨bufs, hbufs, hcontents⟩ := mapM_send hlen
  have htake : ∀ k, (bufs.take k).flatMap Buffer.content = stream (ms.take k) := by
    intro k
    rw [stream, List.flatMap_def, List.flatMap_def, List.map_take, List.map_take, hcontents]
  have hall : bufs.flatMap Buffer.content = stream ms := by
    rw [stream, List.flatMap_def, List.flatMap_def, hcontents]
  refine ⟨bufs, hbufs, fun chunks input hempty hchunks => ?_⟩
  replace hchunks : received chunks = stream ms := hchunks.trans hall
  refine ⟨fun first rest hsplit => ?_, ?_⟩
  · have hfirst : received first <+: stream ms := by
      rw [← hchunks, hsplit, received, received, List.flatMap_append]
      exact List.prefix_append _ _
    obtain ⟨s, hdeliver, hshutdowns, hmessages, -⟩ := CodecConn.deliver_arrived hlen hempty hfirst
    refine ⟨s, hdeliver, hshutdowns, hmessages ▸ arrived_isPrefix ms _, fun i hi => ?_⟩
    rw [htake, ← List.length_map Prod.fst, hmessages]
    exact lt_length_arrived_iff hi
  · have hlast : received chunks <+: stream ms := by rw [hchunks]
    obtain ⟨s, hdeliver, -, hmessages, hcontent⟩ := CodecConn.deliver_arrived hlen hempty hlast
    rw [hchunks] at hmessages hcontent
    exact ⟨s, hdeliver, hmessages.trans (arrived_all (Nat.le_refl _)), hcontent (Nat.le_refl _)⟩

/-- Two messages, one of them empty, in chunks that cut the header and the message. -/
theorem codec_round_trip_three_chunks :
    ∃ s, CodecConn.deliver [([0, 0], 1), ([0, 2, 97], 2), ([98, 0, 0, 0, 0], 3)] ⟨.new, [], 0⟩ =
        some s ∧ s.messages.map Prod.fst = [[97, 98], []] ∧ s.input.content = [] := by
  have hlen : ∀ m ∈ ([[97, 98], []] : List Bytes), m.length ≤ 65536 := by simp
  obtain ⟨bufs, hbufs, h⟩ := codec_round_trip [[97, 98], []] hlen
  obtain ⟨bufs', hbufs', hcontents⟩ := mapM_send hlen
  obtain rfl := Except.ok.inj (hbufs.symm.trans hbufs')
  refine (h _ .new ValidBuffer.content_new ?_).2
  rw [List.flatMap_def (f := Buffer.content), hcontents]
  decide

end LengthHeaderCodec

end Tmuduo
