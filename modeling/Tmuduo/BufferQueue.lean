import Tmuduo.Buffer

/-!
# The buffer is a byte queue

`bufferPool` is a machine of any number of buffers. A call works on one buffer, or swaps two.
What a caller owes (`BufferOp.Pre`) is checked where the call is made : room in front for
`prepend`, room behind for `hasWritten`, a position in the content for `retrieveUntil`, a
length within the content for `retrieveAsString`.

`BufferOp.spec` says what each call does to a list of bytes, with no index in sight.
`bufferPool_refines` is one call, and `buffer_refines_queue` every run from new buffers : the
indices stay in order, no assertion fails, and the contents and the returned strings are
those of the lists.
-/

set_option autoImplicit false

namespace Tmuduo

/-- A call on one buffer. `retrieveUntil k` passes the position `peek() + k`, and `hasWritten
data` is the call after the caller filled `beginWrite()` with `data`. -/
inductive BufferOp
  | append (data : Bytes)
  | prepend (data : Bytes)
  | retrieve (len : ℕ)
  | retrieveUntil (k : ℕ)
  | retrieveAll
  | retrieveAsString (len : ℕ)
  | ensureWritableBytes (len : ℕ)
  | hasWritten (data : Bytes)
  | shrink (reserve : ℕ)
  deriving DecidableEq, Repr

namespace BufferOp

/-- What the caller has to establish. -/
def Pre (b : Buffer) : BufferOp → Prop
  | prepend data => data.length ≤ b.prependableBytes
  | retrieveUntil k => b.peek ≤ b.peek + k ∧ b.peek + k ≤ b.beginWrite
  | retrieveAsString len => len ≤ b.readableBytes
  | hasWritten data => data.length ≤ b.writableBytes
  | _ => True

/-- The buffer after the call, and the string it returns, if any. -/
def exec (b : Buffer) : BufferOp → Except BufferAssert (Buffer × List Bytes)
  | append data => (b.append data).map (·, [])
  | prepend data => (b.prepend data).map (·, [])
  | retrieve len => .ok (b.retrieve len, [])
  | retrieveUntil k => (b.retrieveUntil (b.peek + k)).map (·, [])
  | retrieveAll => .ok (b.retrieveAll, [])
  | retrieveAsString len => (b.retrieveAsString len).map fun r => (r.2, [r.1])
  | ensureWritableBytes len => (b.ensureWritableBytes len).map (·, [])
  | hasWritten data => .ok ((b.fill data).hasWritten data.length, [])
  | shrink reserve => (b.shrink reserve).map (·, [])

/-- The call on a queue of bytes : the queue after it, and the string it returns. -/
def spec (q : Bytes) : BufferOp → Bytes × List Bytes
  | append data => (q ++ data, [])
  | prepend data => (data ++ q, [])
  | retrieve len => (q.drop (min len q.length), [])
  | retrieveUntil k => (q.drop k, [])
  | retrieveAll => ([], [])
  | retrieveAsString len => (q.drop len, [q.take len])
  | ensureWritableBytes _ => (q, [])
  | hasWritten data => (q ++ data, [])
  | shrink _ => (q, [])

/-- One call on a valid buffer. -/
theorem exec_spec {b : Buffer} (h : b.Valid) (op : BufferOp) (hpre : op.Pre b) :
    ∃ b', op.exec b = .ok (b', (op.spec b.content).2) ∧ b'.Valid ∧
      b'.content = (op.spec b.content).1 := by
  cases op with
  | append data =>
    obtain ⟨b', hb', hv, hc⟩ := h.append data
    exact ⟨b', by simp [exec, hb', Except.map, spec], hv, hc⟩
  | prepend data =>
    obtain ⟨b', hb', hv, hc⟩ := h.prepend hpre
    exact ⟨b', by simp [exec, hb', Except.map, spec], hv, hc⟩
  | retrieve len =>
    refine ⟨b.retrieve len, rfl, h.retrieve len, ?_⟩
    rw [h.content_retrieve, spec, List.drop_eq_drop_iff]
    omega
  | retrieveUntil k =>
    have hr := h.reader_le
    have hk : k ≤ b.readableBytes := by
      unfold Pre Buffer.peek Buffer.beginWrite at hpre
      unfold Buffer.readableBytes
      omega
    exact ⟨b.retrieve k, by simp [exec, h.retrieveUntil hk, Except.map, spec], h.retrieve k,
      h.content_retrieve k⟩
  | retrieveAll => exact ⟨b.retrieveAll, rfl, h.retrieveAll, slice_self _ _⟩
  | retrieveAsString len =>
    exact ⟨b.retrieve len, by simp [exec, h.retrieveAsString hpre, Except.map, spec],
      h.retrieve len, h.content_retrieve len⟩
  | ensureWritableBytes len =>
    obtain ⟨b', hb', hv, hc, -⟩ := h.ensureWritableBytes len
    exact ⟨b', by simp [exec, hb', Except.map, spec], hv, hc⟩
  | hasWritten data =>
    obtain ⟨hv, hc⟩ := h.hasWritten hpre
    exact ⟨_, rfl, hv, hc⟩
  | shrink reserve =>
    obtain ⟨b', hb', hv, hc⟩ := Buffer.shrink_ok b reserve
    exact ⟨b', by simp [exec, hb', Except.map, spec], hv, hc⟩

end BufferOp

/-! ## Pools of buffers -/

variable {ι : Type*} [DecidableEq ι]

/-- A call in a pool of buffers. -/
inductive PoolOp (ι : Type*)
  | on (i : ι) (op : BufferOp)
  | swap (i j : ι)

/-- The buffers, and the strings returned so far. -/
structure BufferPool (ι : Type*) where
  bufs : ι → Buffer
  returned : List Bytes

/-- Any number of buffers, each called within its contract. -/
def bufferPool (ι : Type*) [DecidableEq ι] : Machine (BufferPool ι) (PoolOp ι) BufferAssert where
  enabled s
    | .on i op => op.Pre (s.bufs i)
    | .swap _ _ => True
  exec s
    | .on i op => (op.exec (s.bufs i)).map fun r =>
        ⟨Function.update s.bufs i r.1, s.returned ++ r.2⟩
    | .swap i j =>
        let r := (s.bufs i).swap (s.bufs j)
        .ok { s with bufs := Function.update (Function.update s.bufs i r.1) j r.2 }

/-- The same calls on queues of bytes. -/
def queuePool (q : (ι → Bytes) × List Bytes) : PoolOp ι → (ι → Bytes) × List Bytes
  | .on i op => (Function.update q.1 i (op.spec (q.1 i)).1, q.2 ++ (op.spec (q.1 i)).2)
  | .swap i j => (Function.update (Function.update q.1 i (q.1 j)) j (q.1 i), q.2)

namespace BufferPool

/-- New buffers, and nothing returned. -/
def new : BufferPool ι :=
  ⟨fun _ => Buffer.new, []⟩

/-- The contents, and the strings returned. -/
def queues (s : BufferPool ι) : (ι → Bytes) × List Bytes :=
  (fun i => (s.bufs i).content, s.returned)

end BufferPool

theorem content_update (f : ι → Buffer) (i : ι) (b : Buffer) :
    (fun k => (Function.update f i b k).content) =
      Function.update (fun k => (f k).content) i b.content :=
  funext fun k => Function.apply_update (fun _ => Buffer.content) f i b k

theorem valid_update {f : ι → Buffer} (hf : ∀ k, (f k).Valid) (i : ι) {b : Buffer}
    (hb : b.Valid) (k : ι) : (Function.update f i b k).Valid := by
  rcases eq_or_ne k i with rfl | hk
  · rwa [Function.update_self]
  · rw [Function.update_of_ne hk]
    exact hf k

/-- One call on valid buffers does to their contents what it does to the queues. -/
theorem bufferPool_refines :
    (bufferPool ι).Refines (fun s => ∀ i, (s.bufs i).Valid) BufferPool.queues queuePool where
  step s l hinv hpre := by
    cases l with
    | on i op =>
      obtain ⟨b', hb', hv, hc⟩ := op.exec_spec (hinv i) hpre
      refine ⟨⟨Function.update s.bufs i b', s.returned ++ (op.spec (s.bufs i).content).2⟩,
        by simp [bufferPool, hb', Except.map], valid_update hinv i hv, ?_⟩
      simp only [BufferPool.queues, queuePool, content_update, hc]
    | swap i j =>
      refine ⟨_, rfl, valid_update (valid_update hinv i (hinv j)) j (hinv i), ?_⟩
      simp only [BufferPool.queues, queuePool, content_update, Buffer.swap]

/-- From new buffers, every sequence of calls within the contract keeps the indices in order,
fails no assertion, and moves the contents and the returned strings as the queues. -/
theorem buffer_refines_queue :
    (∀ (ls : List (PoolOp ι)) (t : BufferPool ι), (bufferPool ι).Run .new ls t →
      (∀ i, (t.bufs i).readerIndex ≤ (t.bufs i).writerIndex ∧
        (t.bufs i).writerIndex ≤ (t.bufs i).buffer.length) ∧
      t.queues = ls.foldl queuePool (fun _ => [], [])) ∧
    (bufferPool ι).Safe .new := by
  have hnew : ∀ i : ι, ((BufferPool.new : BufferPool ι).bufs i).Valid := fun _ =>
    Buffer.new_valid
  refine ⟨fun ls t hrun => ?_, bufferPool_refines.safe hnew⟩
  obtain ⟨hinv, hq⟩ := bufferPool_refines.run hnew hrun
  refine ⟨fun i => ⟨(hinv i).reader_le, (hinv i).writer_le⟩, ?_⟩
  simpa [BufferPool.queues, BufferPool.new] using hq

end Tmuduo
