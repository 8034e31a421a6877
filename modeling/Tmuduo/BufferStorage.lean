import Tmuduo.BufferRead

/-!
# The storage of a buffer

`makeSpace` moves the content to the front, or grows the vector to what it needs behind the writer,
past the bytes that were retrieved. It grows only when the room before the reader is smaller than
what is asked for, so the vector stays within twice the largest demand (`length_makeSpace_le`).

`buffer_storage_bound` is the bound over all runs in which no `ensureWritableBytes` demands more.
-/

set_option autoImplicit false

namespace Tmuduo

namespace Buffer

/-- The size that the vector keeps to, when no call demands more than `M` bytes. -/
def storageBound (M : ℕ) : ℕ :=
  max (kCheapPrepend + kInitialSize) (2 * M + kCheapPrepend)

/-- What the buffer holds, and what `ensureWritableBytes(len)` is to make room for. -/
def DemandsAtMost (M : ℕ) (b : Buffer) (len : ℕ) : Prop :=
  b.readableBytes + len ≤ M

theorem length_new : new.buffer.length = kCheapPrepend + kInitialSize := by
  simp [new]

theorem length_new_le (M : ℕ) : new.buffer.length ≤ storageBound M := by
  rw [length_new]
  exact Nat.le_max_left _ _

@[simp] theorem buffer_retrieve (b : Buffer) (len : ℕ) : (b.retrieve len).buffer = b.buffer := by
  unfold retrieve
  split_ifs <;> rfl

variable {b b' : Buffer} {M : ℕ}

/-- The reader is below `len + kCheapPrepend` when the vector grows, so the room in front of it is
paid for by the demand. -/
theorem length_makeSpace_le (h : b.Valid) {len : ℕ} (hM : b.readableBytes + len ≤ M)
    (hsize : b.buffer.length ≤ storageBound M) (hcall : b.makeSpace len = .ok b') :
    b'.buffer.length ≤ storageBound M := by
  have hr := h.reader_le
  have hw := h.writer_le
  unfold makeSpace at hcall
  split_ifs at hcall with hgrow
  · obtain rfl := Except.ok.inj hcall
    have hbound : b.writerIndex + len ≤ 2 * M + kCheapPrepend := by
      unfold writableBytes prependableBytes at hgrow
      unfold readableBytes at hM
      omega
    have hl := length_resize b.buffer (b.writerIndex + len) (0 : UInt8)
    simp only [hl]
    exact Nat.le_trans hbound (Nat.le_max_right _ _)
  · obtain ⟨hreader, hcall⟩ := check_bind_eq_ok_iff.mp hcall
    obtain ⟨-, hcall⟩ := check_bind_eq_ok_iff.mp hcall
    obtain rfl := Except.ok.inj hcall
    rwa [h.length_compact hreader]

/-- No change takes the vector past the bound. -/
theorem length_change_le (h : b.Valid) (hsize : b.buffer.length ≤ storageBound M)
    (hchange : Change (DemandsAtMost M) b b') : b'.buffer.length ≤ storageBound M := by
  cases hchange with
  | retrieve len => rwa [buffer_retrieve]
  | @prepend data _ hcall =>
    obtain ⟨hlen, hcall⟩ := check_bind_eq_ok_iff.mp hcall
    obtain rfl := Except.ok.inj hcall
    have hr := h.reader_le
    have hw := h.writer_le
    unfold prependableBytes at hlen
    have hl : (splice b.buffer (b.readerIndex - data.length) data).length = b.buffer.length :=
      length_splice _ (by omega)
    exact Nat.le_trans (Nat.le_of_eq hl) hsize
  | makeSpace hM _ hcall => exact length_makeSpace_le h hM hsize hcall
  | @write data hlen =>
    have hw := h.writer_le
    unfold writableBytes at hlen
    have hl : (splice b.buffer b.writerIndex data).length = b.buffer.length :=
      length_splice _ (by omega)
    exact Nat.le_trans (Nat.le_of_eq hl) hsize

end Buffer

/-- For every run of any number of buffers and every `M` : when `readableBytes() + len` is at most
`M` at each `ensureWritableBytes(len)` of the run, every vector stays within
`kCheapPrepend + kInitialSize` or `2 * M + kCheapPrepend` bytes, whichever is larger. -/
theorem buffer_storage_bound {ι : Type*} [DecidableEq ι] {M : ℕ} {ls : List (PoolCall ι)}
    {bufs : ι → Buffer}
    (h : ((bufferCalls ι).restrict (Ensures (Buffer.DemandsAtMost M))).Run (fun _ => .new) ls bufs)
    (i : ι) : (bufs i).buffer.length ≤
      max (Buffer.kCheapPrepend + Buffer.kInitialSize) (2 * M + Buffer.kCheapPrepend) :=
  (bufferCalls_invariant h (Buffer.length_new_le M)
    (fun _ _ hv hsize hchange => Buffer.length_change_le hv hsize hchange) i).2

set_option maxRecDepth 20000 in
/-- A buffer that holds three bytes and grows for 1500 more. -/
theorem buffer_storage_bound_grown : ∃ bufs : Unit → Buffer,
    ((bufferCalls Unit).restrict (Ensures (Buffer.DemandsAtMost 1503))).Run (fun _ => .new)
      [.on () (.op (.append [1, 2, 3])), .on () (.op (.ensureWritableBytes 1500))] bufs ∧
    (bufs ()).buffer.length ≤
      max (Buffer.kCheapPrepend + Buffer.kInitialSize) (2 * 1503 + Buffer.kCheapPrepend) := by
  have hrun : ∃ bufs : Unit → Buffer,
      ((bufferCalls Unit).restrict (Ensures (Buffer.DemandsAtMost 1503))).Run (fun _ => .new)
        [.on () (.op (.append [1, 2, 3])), .on () (.op (.ensureWritableBytes 1500))] bufs := by
    have hfirst : Ensures (Buffer.DemandsAtMost 1503) (fun _ => Buffer.new)
        (.on () (.op (.append [1, 2, 3]))) :=
      List.forall_mem_singleton.mpr (show 0 + 3 ≤ 1503 by decide)
    refine ⟨_, .snoc (.snoc .nil (And.intro trivial hfirst) rfl) ⟨trivial, ?_⟩ rfl⟩
    exact List.forall_mem_singleton.mpr (show 3 + 1500 ≤ 1503 by decide)
  obtain ⟨bufs, h⟩ := hrun
  exact ⟨bufs, h, buffer_storage_bound h ()⟩

end Tmuduo
