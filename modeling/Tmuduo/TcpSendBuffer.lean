import Tmuduo.BufferRead
import Tmuduo.TcpOutput

/-!
# Sending a buffer

`send(Buffer&&)` sends the content in the loop thread and empties the buffer, and in another thread
moves the buffer into the functor that it queues. The moved buffer keeps its two indices and loses
its vector (`Buffer.move`), and the writer of a buffer is never before `kCheapPrepend`
(`kCheapPrepend_le_writerIndex`). So the caller is left with a valid buffer in the loop thread only
(`send_leaves_empty_iff`).
-/

set_option autoImplicit false

namespace Tmuduo

namespace Buffer

/-- The implicit move constructor : the new buffer, and what is left of the old one. A moved-from
`std::vector` is empty, and the indices are copied. -/
def move (b : Buffer) : Buffer × Buffer :=
  (b, { b with buffer := [] })

/-- A valid buffer with nothing to read. -/
def ValidEmpty (b : Buffer) : Prop :=
  b.readerIndex = b.writerIndex ∧ b.writerIndex ≤ b.buffer.length

/-- The writer is not in the room that is kept for `prepend`. -/
def Reserved (b : Buffer) : Prop :=
  kCheapPrepend ≤ b.writerIndex

variable {b b' : Buffer}

theorem Reserved.change {P : Buffer → ℕ → Prop} (h : b.Reserved) (hchange : Change P b b') :
    b'.Reserved := by
  cases hchange with
  | retrieve len =>
    unfold Buffer.retrieve
    split_ifs
    · exact h
    · exact Nat.le_refl _
  | prepend hcall =>
    obtain ⟨-, hcall⟩ := check_bind_eq_ok_iff.mp hcall
    obtain rfl := Except.ok.inj hcall
    exact h
  | makeSpace _ _ hcall =>
    unfold Buffer.makeSpace at hcall
    split_ifs at hcall
    · obtain rfl := Except.ok.inj hcall
      exact h
    · obtain ⟨-, hcall⟩ := check_bind_eq_ok_iff.mp hcall
      obtain ⟨-, hcall⟩ := check_bind_eq_ok_iff.mp hcall
      obtain rfl := Except.ok.inj hcall
      exact Nat.le_add_right _ _
  | write _ => exact Nat.le_add_right_of_le h

end Buffer

/-- In every run, the writer of a buffer stays behind the room for `prepend`. -/
theorem bufferCalls_reserved {ι : Type*} [DecidableEq ι] {ls : List (PoolCall ι)}
    {bufs : ι → Buffer} (h : (bufferCalls ι).Run (fun _ => .new) ls bufs) (i : ι) :
    (bufs i).Reserved :=
  (bufferCalls_invariant (run_ensures_true h) (Nat.le_refl _)
    (fun _ _ _ hb hchange => hb.change hchange) i).2

/-! ## The call -/

/-- What `send(Buffer&&)` leaves : the connection, the caller's buffer, and the buffers of the
functors that it queued. -/
structure SendBuffer where
  connection : TcpWorld
  message : Buffer
  queued : List Buffer

/-- `TcpConnection::send(Buffer&&)`. `r` is the result of `sockets::write`, if it is called. -/
def TcpWorld.sendBuffer (c : TcpWorld) (message : Buffer) (inLoop : Bool) (r : WriteResult) :
    Except TcpAssert SendBuffer :=
  if c.state = .kConnected then
    if inLoop then do
      let c' ← c.sendInLoop message.content r
      return ⟨c', message.retrieveAll, []⟩
    else return ⟨c, message.move.2, [message.move.1]⟩
  else return ⟨c, message, []⟩

/-- For every connected connection, every buffer that a run has led to and everything that `write`
may return : the call succeeds, and leaves the caller a valid empty buffer if and only if it was
made in the loop thread. -/
theorem send_leaves_empty_iff {ι : Type*} [DecidableEq ι] {ls : List (PoolCall ι)}
    {bufs : ι → Buffer} (h : (bufferCalls ι).Run (fun _ => .new) ls bufs) (i : ι) {c : TcpWorld}
    (hstate : c.state = .kConnected) {r : WriteResult} (hr : r.Valid (bufs i).content.length)
    (inLoop : Bool) :
    ∃ out, c.sendBuffer (bufs i) inLoop r = .ok out ∧ (out.message.ValidEmpty ↔ inLoop = true) := by
  unfold TcpWorld.sendBuffer
  rw [if_pos hstate]
  cases inLoop with
  | true =>
    have hlive : c.state ≠ .kDisconnected := by simp [hstate]
    obtain ⟨c', hc', -⟩ := c.sendInLoop_ok hlive hr
    refine ⟨⟨c', (bufs i).retrieveAll, []⟩, by simp [hc'], iff_of_true ?_ rfl⟩
    exact ⟨rfl, (bufferCalls_valid h i).prepend_le⟩
  | false =>
    refine ⟨⟨c, (bufs i).move.2, [(bufs i).move.1]⟩, rfl, iff_of_false ?_ (by decide)⟩
    rintro ⟨-, hsize⟩
    have hreserved : Buffer.kCheapPrepend ≤ (bufs i).writerIndex := bufferCalls_reserved h i
    have hnil : (bufs i).writerIndex ≤ 0 := hsize
    exact absurd (Nat.le_trans hreserved hnil) (by decide)

/-- A connection that has just been established. -/
def connectedWorld : TcpWorld :=
  (TcpRun.established 3 false false 64).world

set_option maxRecDepth 20000 in
/-- Three bytes, sent in the loop thread. -/
theorem send_leaves_empty_in_loop : ∃ bufs : Unit → Buffer,
    (bufferCalls Unit).Run (fun _ => .new) [.on () (.op (.append [1, 2, 3]))] bufs ∧
    ∃ out, connectedWorld.sendBuffer (bufs ()) true (.failed .EWOULDBLOCK) = .ok out ∧
      out.message.ValidEmpty := by
  have hrun : ∃ bufs : Unit → Buffer,
      (bufferCalls Unit).Run (fun _ => .new) [.on () (.op (.append [1, 2, 3]))] bufs :=
    ⟨_, .snoc .nil trivial rfl⟩
  obtain ⟨bufs, h⟩ := hrun
  obtain ⟨out, hout, hiff⟩ :=
    send_leaves_empty_iff h () (c := connectedWorld) (r := .failed .EWOULDBLOCK) rfl trivial true
  exact ⟨bufs, h, out, hout, hiff.mpr rfl⟩

set_option maxRecDepth 20000 in
/-- The same buffer, sent in another thread : its indices are 8 and 11, and its vector is empty. -/
theorem send_leaves_moved_buffer : ∃ bufs : Unit → Buffer,
    (bufferCalls Unit).Run (fun _ => .new) [.on () (.op (.append [1, 2, 3]))] bufs ∧
    ∃ out, connectedWorld.sendBuffer (bufs ()) false (.failed .EWOULDBLOCK) = .ok out ∧
      out.message = ⟨[], 8, 11⟩ ∧ ¬out.message.ValidEmpty := by
  refine ⟨_, .snoc .nil trivial rfl, _, rfl, rfl, ?_⟩
  rintro ⟨hequal, -⟩
  cases hequal

end Tmuduo
