import Mathlib.Logic.Function.Basic
import Tmuduo.Machine
import Tmuduo.Search
import Tmuduo.Segment
import Tmuduo.Text

/-!
# The byte buffer

`Buffer` is `tmuduo::net::Buffer` : a vector of bytes and two indices into it. The bytes
between the indices are the readable content, the room before them is for `prepend`, the room
after them is writable. Pointers into the buffer are positions of the vector. Sizes are
natural numbers, so the sums of the source do not wrap.

An operation that asserts returns `Except BufferAssert`. `Buffer.Valid` is the invariant of
the indices; under it every assertion holds whose condition the caller does not have to
establish, and each operation has one equation on `Buffer.content`.

`ValidBuffer` carries the invariant as a field. Its operations are total, and `ValidBuffer`
is what the connection and the parsers hold.
-/

set_option autoImplicit false

namespace Tmuduo

/-- The assertions of `Buffer.h`. -/
inductive BufferAssert
  | ctorReadable
  | ctorWritable
  | ctorPrependable
  | retrieveUntilPeek
  | retrieveUntilBeginWrite
  | retrieveAsStringLen
  | prependLen
  | ensureWritable
  | makeSpaceReader
  | makeSpaceReadable
  deriving DecidableEq, Repr

/-- `tmuduo::net::Buffer`. -/
structure Buffer where
  buffer : Bytes
  readerIndex : ℕ
  writerIndex : ℕ
  deriving DecidableEq, Repr

namespace Buffer

/-- The room before the content, for `prepend`. -/
def kCheapPrepend : ℕ := 8

/-- The room for content that a new buffer has. -/
def kInitialSize : ℕ := 1024

/-- What ends a line of HTTP. -/
def kCRLF : Bytes := ascii "\r\n"

/-- The members as the constructor initialises them. -/
def new : Buffer :=
  ⟨List.replicate (kCheapPrepend + kInitialSize) 0, kCheapPrepend, kCheapPrepend⟩

variable (b : Buffer)

/-- The length of the content. -/
def readableBytes : ℕ := b.writerIndex - b.readerIndex

/-- The room behind the content. -/
def writableBytes : ℕ := b.buffer.length - b.writerIndex

/-- The room before the content. -/
def prependableBytes : ℕ := b.readerIndex

/-- Where the content begins. -/
def peek : ℕ := b.readerIndex

/-- Where the next byte is written. -/
def beginWrite : ℕ := b.writerIndex

/-- The readable content : `toStringView`. -/
def content : Bytes := slice b.buffer b.readerIndex b.writerIndex

/-- `Buffer::Buffer`, with its assertions. -/
def ctor : Except BufferAssert Buffer := do
  check (new.readableBytes = 0) .ctorReadable
  check (new.writableBytes = kInitialSize) .ctorWritable
  check (new.prependableBytes = kCheapPrepend) .ctorPrependable
  return new

/-- The position of the first CRLF of the content, or `nullptr`. -/
def findCRLF : Option ℕ :=
  (search kCRLF b.content).map (b.peek + ·)

def retrieveAll : Buffer :=
  { b with readerIndex := kCheapPrepend, writerIndex := kCheapPrepend }

/-- `len` bytes of the content have been read, or all of it. -/
def retrieve (len : ℕ) : Buffer :=
  if len < b.readableBytes then { b with readerIndex := b.readerIndex + len }
  else b.retrieveAll

/-- The content before the position `stop` has been read. -/
def retrieveUntil (stop : ℕ) : Except BufferAssert Buffer := do
  check (b.peek ≤ stop) .retrieveUntilPeek
  check (stop ≤ b.beginWrite) .retrieveUntilBeginWrite
  return b.retrieve (stop - b.peek)

/-- The first `len` bytes, and the buffer after they were read. -/
def retrieveAsString (len : ℕ) : Except BufferAssert (Bytes × Buffer) := do
  check (len ≤ b.readableBytes) .retrieveAsStringLen
  let result := slice b.buffer b.peek (b.peek + len)
  return (result, b.retrieve len)

def retrieveAllAsString : Except BufferAssert (Bytes × Buffer) :=
  b.retrieveAsString b.readableBytes

/-- `len` bytes were written at `beginWrite()`. -/
def hasWritten (len : ℕ) : Buffer :=
  { b with writerIndex := b.writerIndex + len }

/-- `std::copy` of the caller's bytes to `beginWrite()`. -/
def fill (data : Bytes) : Buffer :=
  { b with buffer := splice b.buffer b.beginWrite data }

/-- The content moved to the front, with `std::copy` going forward over a range that may
overlap its target. -/
def compact : Buffer where
  buffer := copyWithin b.buffer b.readerIndex kCheapPrepend b.readableBytes
  readerIndex := kCheapPrepend
  writerIndex := kCheapPrepend + b.readableBytes

/-- Room for `len` more bytes : a longer vector, or the content moved to the front. -/
def makeSpace (len : ℕ) : Except BufferAssert Buffer :=
  if b.writableBytes + b.prependableBytes < len + kCheapPrepend then
    return { b with buffer := resize b.buffer (b.writerIndex + len) 0 }
  else do
    check (kCheapPrepend < b.readerIndex) .makeSpaceReader
    check (b.readableBytes = b.compact.readableBytes) .makeSpaceReadable
    return b.compact

def ensureWritableBytes (len : ℕ) : Except BufferAssert Buffer := do
  let b' ← if b.writableBytes < len then b.makeSpace len else pure b
  check (len ≤ b'.writableBytes) .ensureWritable
  return b'

def append (data : Bytes) : Except BufferAssert Buffer := do
  let b' ← b.ensureWritableBytes data.length
  return (b'.fill data).hasWritten data.length

/-- The bytes are written before the content. -/
def prepend (data : Bytes) : Except BufferAssert Buffer := do
  check (data.length ≤ b.prependableBytes) .prependLen
  let reader := b.readerIndex - data.length
  return { b with readerIndex := reader, buffer := splice b.buffer reader data }

/-- The two buffers after `lhs.swap(rhs)`. -/
def swap (rhs : Buffer) : Buffer × Buffer :=
  (⟨rhs.buffer, rhs.readerIndex, rhs.writerIndex⟩, ⟨b.buffer, b.readerIndex, b.writerIndex⟩)

/-- The content in a new buffer, which has room for `reserve` more bytes. -/
def shrink (reserve : ℕ) : Except BufferAssert Buffer := do
  let other ← ctor
  let other ← other.ensureWritableBytes (b.readableBytes + reserve)
  let other ← other.append b.content
  return (b.swap other).1

/-! ## The invariant of the indices -/

/-- The indices are in order and inside the vector, and the vector holds the room that
`retrieveAll` reserves for `prepend`. -/
structure Valid : Prop where
  reader_le : b.readerIndex ≤ b.writerIndex
  writer_le : b.writerIndex ≤ b.buffer.length
  prepend_le : kCheapPrepend ≤ b.buffer.length

/-- A new buffer is valid. -/
theorem new_valid : new.Valid :=
  ⟨Nat.le_refl _, by simp [new], by simp [new]⟩

@[simp] theorem content_new : new.content = [] :=
  slice_self _ _

/-- The assertions of the constructor hold. -/
theorem ctor_eq : ctor = .ok new := by
  simp [ctor, check, new, readableBytes, writableBytes, prependableBytes]

@[simp] theorem readableBytes_compact : b.compact.readableBytes = b.readableBytes := by
  simp [compact, readableBytes]

variable {b} (h : b.Valid)

include h

theorem Valid.length_content : b.content.length = b.readableBytes :=
  length_slice _ h.writer_le

theorem Valid.retrieveAll : b.retrieveAll.Valid :=
  ⟨Nat.le_refl _, h.prepend_le, h.prepend_le⟩

/-- Reading keeps the indices in order. -/
theorem Valid.retrieve (len : ℕ) : (b.retrieve len).Valid := by
  unfold Buffer.retrieve
  split_ifs with hlen
  · have hr : b.readerIndex + len ≤ b.writerIndex := by
      unfold readableBytes at hlen
      omega
    exact ⟨hr, h.writer_le, h.prepend_le⟩
  · exact h.retrieveAll

theorem Valid.content_retrieve (len : ℕ) : (b.retrieve len).content = b.content.drop len := by
  unfold Buffer.retrieve
  split_ifs with hlen
  · exact (drop_slice _ _ _ _).symm
  · rw [List.drop_eq_nil_of_le (by rw [h.length_content]; omega)]
    exact slice_self _ _

/-- `retrieveUntil` at a position `len` bytes into the content. -/
theorem Valid.retrieveUntil {len : ℕ} (hlen : len ≤ b.readableBytes) :
    b.retrieveUntil (b.peek + len) = .ok (b.retrieve len) := by
  have hr := h.reader_le
  unfold readableBytes at hlen
  have hstop : b.peek + len ≤ b.beginWrite := by
    unfold peek beginWrite
    omega
  simp [Buffer.retrieveUntil, check, hstop]

/-- The bytes at `peek()` are the first of the content. -/
theorem Valid.slice_peek_eq_take {len : ℕ} (hlen : len ≤ b.readableBytes) :
    slice b.buffer b.peek (b.peek + len) = b.content.take len := by
  have hr := h.reader_le
  unfold readableBytes at hlen
  unfold peek
  exact (take_slice _ (by omega)).symm

theorem Valid.retrieveAsString {len : ℕ} (hlen : len ≤ b.readableBytes) :
    b.retrieveAsString len = .ok (b.content.take len, b.retrieve len) := by
  simp [Buffer.retrieveAsString, check, hlen, h.slice_peek_eq_take hlen]

/-! ## Making space -/

theorem Valid.buffer_compact (hreader : kCheapPrepend < b.readerIndex) :
    b.compact.buffer = splice b.buffer kCheapPrepend b.content := by
  have hr := h.reader_le
  have hw := h.writer_le
  have hsum : b.readerIndex + (b.writerIndex - b.readerIndex) = b.writerIndex := by omega
  unfold Buffer.compact readableBytes content
  rw [copyWithin_eq_splice _ (Nat.le_of_lt hreader) (by omega), hsum]

theorem Valid.length_compact (hreader : kCheapPrepend < b.readerIndex) :
    b.compact.buffer.length = b.buffer.length := by
  have hr := h.reader_le
  have hw := h.writer_le
  rw [h.buffer_compact hreader]
  refine length_splice _ ?_
  rw [h.length_content]
  unfold readableBytes
  omega

/-- Moving the content to the front keeps it, because the reader lies behind the target. -/
theorem Valid.compact (hreader : kCheapPrepend < b.readerIndex) :
    b.compact.Valid ∧ b.compact.content = b.content := by
  have hr := h.reader_le
  have hw := h.writer_le
  have hl := h.length_compact hreader
  refine ⟨⟨Nat.le_add_right _ _, ?_, ?_⟩, ?_⟩
  · rw [hl]
    unfold Buffer.compact readableBytes
    simp only
    omega
  · rw [hl]
    exact h.prepend_le
  · unfold content
    rw [h.buffer_compact hreader]
    unfold Buffer.compact
    simp only
    rw [← h.length_content]
    exact slice_splice_self _ h.prepend_le

/-- When `makeSpace` is asked for room that is not there it succeeds : if it does not grow
the vector, the reader has moved past `kCheapPrepend`. -/
theorem Valid.makeSpace {len : ℕ} (hlen : b.writableBytes < len) :
    ∃ b', b.makeSpace len = .ok b' ∧ b'.Valid ∧ b'.content = b.content ∧
      len ≤ b'.writableBytes := by
  have hr := h.reader_le
  have hw := h.writer_le
  have hp := h.prepend_le
  unfold Buffer.makeSpace
  unfold Buffer.writableBytes prependableBytes at *
  split_ifs with hgrow
  · have hl := length_resize b.buffer (b.writerIndex + len) 0
    refine ⟨_, rfl, ⟨hr, ?_, ?_⟩, slice_resize _ _ hw (Nat.le_add_right _ _), ?_⟩
    · simp only [hl]
      omega
    · simp only [hl]
      omega
    · simp only [hl]
      omega
  · have hreader : kCheapPrepend < b.readerIndex := by omega
    obtain ⟨hv, hc⟩ := h.compact hreader
    refine ⟨b.compact, by simp [check, hreader], hv, hc, ?_⟩
    rw [h.length_compact hreader]
    unfold Buffer.compact readableBytes
    simp only
    omega

/-- There is room afterwards, and the content is the same. -/
theorem Valid.ensureWritableBytes (len : ℕ) :
    ∃ b', b.ensureWritableBytes len = .ok b' ∧ b'.Valid ∧ b'.content = b.content ∧
      len ≤ b'.writableBytes := by
  unfold Buffer.ensureWritableBytes
  split_ifs with hlen
  · obtain ⟨b', hb', hv, hc, hle⟩ := h.makeSpace hlen
    exact ⟨b', by simp [hb', check, hle], hv, hc, hle⟩
  · have hle : len ≤ b.writableBytes := by omega
    exact ⟨b, by simp [check, hle], h, rfl, hle⟩

/-! ## Writing -/

/-- The caller fills writable space and reports it. -/
theorem Valid.hasWritten {data : Bytes} (hlen : data.length ≤ b.writableBytes) :
    ((b.fill data).hasWritten data.length).Valid ∧
      ((b.fill data).hasWritten data.length).content = b.content ++ data := by
  obtain ⟨hr, hw, hp⟩ := h
  unfold writableBytes at hlen
  have hfit : b.writerIndex + data.length ≤ b.buffer.length := by omega
  have hl : (splice b.buffer b.writerIndex data).length = b.buffer.length := length_splice _ hfit
  refine ⟨⟨?_, ?_, ?_⟩, ?_⟩
  · simp only [Buffer.hasWritten, fill]
    omega
  · simp only [Buffer.hasWritten, fill, beginWrite, hl]
    exact hfit
  · simp only [Buffer.hasWritten, fill, beginWrite, hl]
    exact hp
  · simp only [content, Buffer.hasWritten, fill, beginWrite]
    rw [← slice_append_slice _ hr (Nat.le_add_right _ _), slice_splice_self _ hw,
      slice_splice_of_disjoint _ hw (Or.inl (Nat.le_refl _))]

/-- An append succeeds and adds the bytes to the content. -/
theorem Valid.append (data : Bytes) :
    ∃ b', b.append data = .ok b' ∧ b'.Valid ∧ b'.content = b.content ++ data := by
  obtain ⟨b₁, hb₁, hv, hc, hle⟩ := h.ensureWritableBytes data.length
  obtain ⟨hv', hc'⟩ := hv.hasWritten hle
  exact ⟨_, by simp [Buffer.append, hb₁], hv', by rw [hc', hc]⟩

/-- A prepend that fits puts the bytes before the content. -/
theorem Valid.prepend {data : Bytes} (hlen : data.length ≤ b.prependableBytes) :
    ∃ b', b.prepend data = .ok b' ∧ b'.Valid ∧ b'.content = data ++ b.content := by
  obtain ⟨hr, hw, hp⟩ := h
  unfold prependableBytes at hlen
  have hpos : b.readerIndex - data.length + data.length = b.readerIndex := by omega
  have hl : (splice b.buffer (b.readerIndex - data.length) data).length = b.buffer.length :=
    length_splice _ (by omega)
  refine ⟨_, by simp [Buffer.prepend, check, prependableBytes, hlen]; rfl, ⟨?_, ?_, ?_⟩, ?_⟩
  · simp only
    omega
  · simp only [hl]
    exact hw
  · simp only [hl]
    exact hp
  · have hself : slice (splice b.buffer (b.readerIndex - data.length) data)
        (b.readerIndex - data.length) (b.readerIndex - data.length + data.length) = data :=
      slice_splice_self _ (by omega)
    have hrest : slice (splice b.buffer (b.readerIndex - data.length) data) b.readerIndex
        b.writerIndex = b.content :=
      slice_splice_of_disjoint _ (by omega) (Or.inr (Nat.le_of_eq hpos))
    rw [hpos] at hself
    simp only [content] at hrest ⊢
    rw [← slice_append_slice _ (Nat.sub_le _ _) hr, hself, hrest]

omit h in
/-- `shrink` copies the content into a new buffer. -/
theorem shrink_ok (b : Buffer) (reserve : ℕ) :
    ∃ b', b.shrink reserve = .ok b' ∧ b'.Valid ∧ b'.content = b.content := by
  obtain ⟨b₁, hb₁, hv₁, hc₁, -⟩ := new_valid.ensureWritableBytes (b.readableBytes + reserve)
  obtain ⟨b₂, hb₂, hv₂, hc₂⟩ := hv₁.append b.content
  refine ⟨b₂, ?_, hv₂, by rw [hc₂, hc₁, content_new, List.nil_append]⟩
  simp [Buffer.shrink, ctor_eq, hb₁, hb₂, swap]

end Buffer

/-! ## Buffers that carry their invariant -/

/-- A buffer whose indices are in order. -/
structure ValidBuffer where
  raw : Buffer
  valid : raw.Valid

namespace ValidBuffer

def new : ValidBuffer :=
  ⟨Buffer.new, Buffer.new_valid⟩

variable (b : ValidBuffer)

def content : Bytes := b.raw.content

def readableBytes : ℕ := b.raw.readableBytes

/-- An operation of `Buffer` that succeeds on every valid buffer and leaves it valid. -/
def lift {P : Buffer → Prop} (r : Except BufferAssert Buffer)
    (h : ∃ b', r = .ok b' ∧ b'.Valid ∧ P b') : ValidBuffer :=
  match r with
  | .ok b' => ⟨b', by
      obtain ⟨b'', he, hv, -⟩ := h
      exact Except.ok.inj he ▸ hv⟩
  | .error _ => False.elim (by
      obtain ⟨b'', he, -⟩ := h
      cases he)

theorem lift_spec {P : Buffer → Prop} {r : Except BufferAssert Buffer}
    (h : ∃ b', r = .ok b' ∧ b'.Valid ∧ P b') : P (lift r h).raw := by
  obtain ⟨b', rfl, hv, hP⟩ := h
  exact hP

/-- `findCRLF` counted from `peek()`. -/
def findCRLF : Option ℕ :=
  search Buffer.kCRLF b.content

def append (data : Bytes) : ValidBuffer :=
  lift (b.raw.append data) (b.valid.append data)

def retrieve (len : ℕ) : ValidBuffer :=
  ⟨b.raw.retrieve len, b.valid.retrieve len⟩

def retrieveAll : ValidBuffer :=
  ⟨b.raw.retrieveAll, b.valid.retrieveAll⟩

/-- `retrieveUntil` at the position `len` bytes into the content. -/
def retrieveUntil (len : ℕ) : Except BufferAssert ValidBuffer :=
  if len ≤ b.readableBytes then .ok (b.retrieve len) else .error .retrieveUntilBeginWrite

@[simp] theorem content_new : new.content = [] :=
  Buffer.content_new

@[simp] theorem length_content : b.content.length = b.readableBytes :=
  b.valid.length_content

@[simp] theorem content_append (data : Bytes) : (b.append data).content = b.content ++ data :=
  lift_spec (b.valid.append data)

@[simp] theorem content_retrieve (len : ℕ) : (b.retrieve len).content = b.content.drop len :=
  b.valid.content_retrieve len

@[simp] theorem content_retrieveAll : b.retrieveAll.content = [] :=
  slice_self _ _

theorem findCRLF_raw : b.raw.findCRLF = b.findCRLF.map (b.raw.peek + ·) :=
  rfl

theorem readableBytes_eq_zero_iff : b.readableBytes = 0 ↔ b.content = [] := by
  rw [← length_content, List.length_eq_zero_iff]

/-- `retrieveUntil` is the assertion of `Buffer.retrieveUntil` and its effect. -/
theorem retrieveUntil_raw (len : ℕ) :
    (b.retrieveUntil len).map ValidBuffer.raw = b.raw.retrieveUntil (b.raw.peek + len) := by
  unfold retrieveUntil
  split_ifs with hlen
  · rw [b.valid.retrieveUntil hlen]
    rfl
  · have hr := b.valid.reader_le
    have hstop : ¬b.raw.peek + len ≤ b.raw.beginWrite := by
      unfold readableBytes Buffer.readableBytes at hlen
      unfold Buffer.peek Buffer.beginWrite
      omega
    simp [Buffer.retrieveUntil, check, hstop]
    rfl

theorem retrieveUntil_ok {len : ℕ} (h : len ≤ b.content.length) :
    b.retrieveUntil len = .ok (b.retrieve len) :=
  if_pos (by rwa [length_content] at h)

end ValidBuffer

end Tmuduo
