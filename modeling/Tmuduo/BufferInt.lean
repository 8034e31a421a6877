import Tmuduo.BufferRead
import Tmuduo.Endian

/-!
# Integers in a buffer

`appendInt64` and its siblings write an integer in the order of the network, and `readInt64` and
its siblings take it back. The functions of 16, 32 and 64 bits differ in their size only, so each is
one function (`appendInt`, `peekInt`, `readInt`, `prependInt`) at that size. Those of 8 bits do not
swap. A signed integer is its bit pattern, which the conversions to and from the unsigned types of
`Endian.h` keep, and its value is `BitVec.toInt`. The host is little-endian, so `htobe64` and
`be64toh` are byte swaps.

`TypedInt` is an integer with its type, and `typed_round_trip` says that a list of them comes back
as it was written.
-/

set_option autoImplicit false

namespace Tmuduo

/-- The assertion of the functions that read integers. -/
inductive IntAssert
  | peekInt
  deriving DecidableEq, Repr

variable {n : ℕ}

/-- `hostToNetwork16`, `hostToNetwork32` and `hostToNetwork64`. -/
def hostToNetwork (x : BitVec (8 * n)) : BitVec (8 * n) := byteSwap x

/-- `networkToHost16`, `networkToHost32` and `networkToHost64`. -/
def networkToHost (x : BitVec (8 * n)) : BitVec (8 * n) := byteSwap x

namespace Buffer

variable (b : Buffer)

/-! ## The functions of every size -/

def appendInt (x : BitVec (8 * n)) : Except BufferAssert Buffer :=
  b.append (objectBytes (hostToNetwork x))

def peekInt (n : ℕ) : Except IntAssert (BitVec (8 * n)) := do
  check (n ≤ b.readableBytes) .peekInt
  let be := ofObject n (slice b.buffer b.peek (b.peek + n))
  return networkToHost be

def readInt (n : ℕ) : Except IntAssert (BitVec (8 * n) × Buffer) := do
  let result ← b.peekInt n
  return (result, b.retrieve n)

def prependInt (x : BitVec (8 * n)) : Except BufferAssert Buffer :=
  b.prepend (objectBytes (hostToNetwork x))

/-! ## The functions of `Buffer.h` -/

def appendInt64 (x : BitVec 64) : Except BufferAssert Buffer := b.appendInt (n := 8) x

def appendInt32 (x : BitVec 32) : Except BufferAssert Buffer := b.appendInt (n := 4) x

def appendInt16 (x : BitVec 16) : Except BufferAssert Buffer := b.appendInt (n := 2) x

def appendInt8 (x : BitVec 8) : Except BufferAssert Buffer := b.append (objectBytes (n := 1) x)

def readInt64 : Except IntAssert (BitVec 64 × Buffer) := b.readInt 8

def readInt32 : Except IntAssert (BitVec 32 × Buffer) := b.readInt 4

def readInt16 : Except IntAssert (BitVec 16 × Buffer) := b.readInt 2

def peekInt8 : Except IntAssert (BitVec 8) := do
  check (1 ≤ b.readableBytes) .peekInt
  return ofObject 1 (slice b.buffer b.peek (b.peek + 1))

def readInt8 : Except IntAssert (BitVec 8 × Buffer) := do
  let result ← b.peekInt8
  return (result, b.retrieve 1)

def prependInt64 (x : BitVec 64) : Except BufferAssert Buffer := b.prependInt (n := 8) x

def prependInt32 (x : BitVec 32) : Except BufferAssert Buffer := b.prependInt (n := 4) x

def prependInt16 (x : BitVec 16) : Except BufferAssert Buffer := b.prependInt (n := 2) x

def prependInt8 (x : BitVec 8) : Except BufferAssert Buffer := b.prepend (objectBytes (n := 1) x)

end Buffer

/-! ## Integers with their types -/

/-- The integer types of the interface. -/
inductive IntType
  | int8
  | int16
  | int32
  | int64
  deriving DecidableEq, Repr

/-- `sizeof`. -/
def IntType.size : IntType → ℕ
  | int8 => 1
  | int16 => 2
  | int32 => 4
  | int64 => 8

/-- An integer and its type. -/
structure TypedInt where
  type : IntType
  value : BitVec (8 * type.size)
  deriving DecidableEq, Repr

/-- The integer as the network expects it. -/
def TypedInt.bytes (v : TypedInt) : Bytes :=
  bigEndian v.type.size v.value.toInt

namespace Buffer

variable (b : Buffer)

/-- The function that appends an integer of the type. -/
def appendTyped : TypedInt → Except BufferAssert Buffer
  | ⟨.int8, x⟩ => b.appendInt8 x
  | ⟨.int16, x⟩ => b.appendInt16 x
  | ⟨.int32, x⟩ => b.appendInt32 x
  | ⟨.int64, x⟩ => b.appendInt64 x

/-- The function that prepends an integer of the type. -/
def prependTyped : TypedInt → Except BufferAssert Buffer
  | ⟨.int8, x⟩ => b.prependInt8 x
  | ⟨.int16, x⟩ => b.prependInt16 x
  | ⟨.int32, x⟩ => b.prependInt32 x
  | ⟨.int64, x⟩ => b.prependInt64 x

/-- The function that reads an integer of the type. -/
def readTyped : IntType → Except IntAssert (TypedInt × Buffer)
  | .int8 => b.readInt8.map fun p => (⟨.int8, p.1⟩, p.2)
  | .int16 => b.readInt16.map fun p => (⟨.int16, p.1⟩, p.2)
  | .int32 => b.readInt32.map fun p => (⟨.int32, p.1⟩, p.2)
  | .int64 => b.readInt64.map fun p => (⟨.int64, p.1⟩, p.2)

/-- Append one after the other. -/
def appendAll (b : Buffer) : List TypedInt → Except BufferAssert Buffer
  | [] => .ok b
  | v :: vs => do
    let b' ← b.appendTyped v
    b'.appendAll vs

/-- Read one after the other. -/
def readAll (b : Buffer) : List IntType → Except IntAssert (List TypedInt × Buffer)
  | [] => .ok ([], b)
  | t :: ts => do
    let (v, b') ← b.readTyped t
    let (vs, b'') ← b'.readAll ts
    return (v :: vs, b'')

/-! ## What is written -/

theorem objectBytes_hostToNetwork (x : BitVec (8 * n)) :
    objectBytes (hostToNetwork x) = bigEndian n x.toInt :=
  objectBytes_byteSwap x

/-- One byte has no order. -/
theorem objectBytes_one (x : BitVec (8 * 1)) : objectBytes x = bigEndian 1 x.toInt := by
  obtain ⟨c, hc⟩ := List.length_eq_one_iff.mp (length_objectBytes x)
  rw [← objectBytes_byteSwap, objectBytes_byteSwap_eq_reverse, hc, List.reverse_singleton]

theorem appendTyped_eq (v : TypedInt) : b.appendTyped v = b.append v.bytes := by
  obtain ⟨t, x⟩ := v
  cases t with
  | int8 => exact congrArg b.append (objectBytes_one x)
  | int16 => exact congrArg b.append (objectBytes_hostToNetwork (n := 2) x)
  | int32 => exact congrArg b.append (objectBytes_hostToNetwork (n := 4) x)
  | int64 => exact congrArg b.append (objectBytes_hostToNetwork (n := 8) x)

theorem prependTyped_eq (v : TypedInt) : b.prependTyped v = b.prepend v.bytes := by
  obtain ⟨t, x⟩ := v
  cases t with
  | int8 => exact congrArg b.prepend (objectBytes_one x)
  | int16 => exact congrArg b.prepend (objectBytes_hostToNetwork (n := 2) x)
  | int32 => exact congrArg b.prepend (objectBytes_hostToNetwork (n := 4) x)
  | int64 => exact congrArg b.prepend (objectBytes_hostToNetwork (n := 8) x)

/-! ## What is read -/

variable {b}

theorem Valid.slice_peek (h : b.Valid) {start rest : Bytes} (hc : b.content = start ++ rest) :
    start.length ≤ b.readableBytes ∧ slice b.buffer b.peek (b.peek + start.length) = start := by
  have hle : start.length ≤ b.readableBytes := by
    rw [← h.length_content, hc, List.length_append]
    exact Nat.le_add_right _ _
  exact ⟨hle, by rw [h.slice_peek_eq_take hle, hc, List.take_left]⟩

theorem Valid.readInt (h : b.Valid) {x : BitVec (8 * n)} {rest : Bytes}
    (hc : b.content = bigEndian n x.toInt ++ rest) : b.readInt n = .ok (x, b.retrieve n) := by
  obtain ⟨hle, hslice⟩ := h.slice_peek hc
  rw [length_bigEndian] at hle hslice
  have hvalue : networkToHost (ofObject n (bigEndian n x.toInt)) = x := by
    rw [← objectBytes_hostToNetwork, ofObject_objectBytes]
    exact byteSwap_byteSwap x
  simp [Buffer.readInt, peekInt, check, hle, hslice, hvalue]

theorem Valid.readInt8 (h : b.Valid) {x : BitVec 8} {rest : Bytes}
    (hc : b.content = bigEndian 1 x.toInt ++ rest) : b.readInt8 = .ok (x, b.retrieve 1) := by
  obtain ⟨hle, hslice⟩ := h.slice_peek hc
  rw [length_bigEndian] at hle hslice
  have hvalue : ofObject 1 (bigEndian 1 x.toInt) = x := by
    rw [← objectBytes_one (x : BitVec (8 * 1)), ofObject_objectBytes]
  simp [Buffer.readInt8, peekInt8, check, hle, hslice, hvalue]

/-- An integer that the content starts with is read, and the rest is left. -/
theorem Valid.readTyped (h : b.Valid) {v : TypedInt} {rest : Bytes}
    (hc : b.content = v.bytes ++ rest) :
    ∃ b', b.readTyped v.type = .ok (v, b') ∧ b'.Valid ∧ b'.content = rest := by
  refine ⟨b.retrieve v.type.size, ?_, h.retrieve _, ?_⟩
  · obtain ⟨t, x⟩ := v
    cases t with
    | int8 => exact congrArg (Except.map _) (h.readInt8 hc)
    | int16 => exact congrArg (Except.map _) (h.readInt (n := 2) hc)
    | int32 => exact congrArg (Except.map _) (h.readInt (n := 4) hc)
    | int64 => exact congrArg (Except.map _) (h.readInt (n := 8) hc)
  · have hlen : v.bytes.length = v.type.size := length_bigEndian _ _
    rw [h.content_retrieve, hc, ← hlen, List.drop_left]

/-! ## Lists of integers -/

theorem Valid.appendAll (h : b.Valid) (vs : List TypedInt) :
    ∃ b', b.appendAll vs = .ok b' ∧ b'.Valid ∧
      b'.content = b.content ++ vs.flatMap TypedInt.bytes := by
  induction vs generalizing b with
  | nil => exact ⟨b, rfl, h, by simp⟩
  | cons v vs ih =>
    obtain ⟨b₁, hb₁, hv, hc⟩ := h.append v.bytes
    obtain ⟨b₂, hb₂, hv₂, hc₂⟩ := ih hv
    refine ⟨b₂, ?_, hv₂, ?_⟩
    · rw [Buffer.appendAll, appendTyped_eq, hb₁, ok_bind, hb₂]
    · rw [hc₂, hc, List.flatMap_cons, List.append_assoc]

theorem Valid.readAll (h : b.Valid) (vs : List TypedInt) {rest : Bytes}
    (hc : b.content = vs.flatMap TypedInt.bytes ++ rest) :
    ∃ b', b.readAll (vs.map TypedInt.type) = .ok (vs, b') ∧ b'.content = rest := by
  induction vs generalizing b with
  | nil => exact ⟨b, rfl, hc⟩
  | cons v vs ih =>
    rw [List.flatMap_cons, List.append_assoc] at hc
    obtain ⟨b₁, hb₁, hv, hc₁⟩ := h.readTyped hc
    obtain ⟨b₂, hb₂, hc₂⟩ := ih hv hc₁
    refine ⟨b₂, ?_, hc₂⟩
    simp [Buffer.readAll, hb₁, hb₂]

/-- An integer that is put in front is read first, and what was there is left. -/
theorem Valid.prependTyped (h : b.Valid) {v : TypedInt} (hlen : v.type.size ≤ b.prependableBytes) :
    ∃ b₁, b.prependTyped v = .ok b₁ ∧
      ∃ b₂, b₁.readTyped v.type = .ok (v, b₂) ∧ b₂.content = b.content := by
  have hbytes : v.bytes.length = v.type.size := length_bigEndian _ _
  have hfit : v.bytes.length ≤ b.prependableBytes := by rwa [hbytes]
  obtain ⟨b₁, hb₁, hv, hc⟩ := h.prepend hfit
  obtain ⟨b₂, hb₂, -, hc₂⟩ := hv.readTyped hc
  exact ⟨b₁, by rw [prependTyped_eq, hb₁], b₂, hb₂, hc₂⟩

end Buffer

variable {ι : Type*} [DecidableEq ι]

/-- For every buffer that a run has led to and every list of integers of any types : appended,
they are the big-endian bytes of the integers behind the content; when the content has been
retrieved, reading them with the same types gives them back and leaves nothing. And an integer that
fits in front is read back and leaves the content as it was. -/
theorem typed_round_trip {ls : List (PoolCall ι)} {bufs : ι → Buffer}
    (h : (bufferCalls ι).Run (fun _ => .new) ls bufs) (i : ι) :
    (∀ vs : List TypedInt, ∃ b₁, (bufs i).appendAll vs = .ok b₁ ∧
      b₁.content = (bufs i).content ++
        vs.flatMap (fun v => bigEndian v.type.size v.value.toInt) ∧
      ∃ b₂, (b₁.retrieve (bufs i).content.length).readAll (vs.map TypedInt.type) = .ok (vs, b₂) ∧
        b₂.content = []) ∧
    (∀ v : TypedInt, v.type.size ≤ (bufs i).prependableBytes →
      ∃ b₁, (bufs i).prependTyped v = .ok b₁ ∧
        ∃ b₂, b₁.readTyped v.type = .ok (v, b₂) ∧ b₂.content = (bufs i).content) := by
  have hv := bufferCalls_valid h i
  refine ⟨fun vs => ?_, fun v hlen => hv.prependTyped hlen⟩
  obtain ⟨b₁, hb₁, hv₁, hc₁⟩ := hv.appendAll vs
  refine ⟨b₁, hb₁, hc₁, ?_⟩
  refine (hv₁.retrieve _).readAll vs ?_
  rw [hv₁.content_retrieve, hc₁, List.drop_left, List.append_nil]

set_option maxRecDepth 20000 in
/-- A negative integer of each type, behind three bytes. -/
theorem typed_round_trip_negative : ∃ bufs : Unit → Buffer,
    (bufferCalls Unit).Run (fun _ => .new) [.on () (.op (.append [1, 2, 3]))] bufs ∧
    ∃ b₁, (bufs ()).appendAll [⟨.int8, -1⟩, ⟨.int16, -2⟩, ⟨.int32, -3⟩, ⟨.int64, -4⟩] = .ok b₁ ∧
      b₁.content = [1, 2, 3, 255, 255, 254, 255, 255, 255, 253, 255, 255, 255, 255, 255, 255, 255,
        252] ∧
      ∃ b₂, (b₁.retrieve 3).readAll [.int8, .int16, .int32, .int64] =
        .ok ([⟨.int8, -1⟩, ⟨.int16, -2⟩, ⟨.int32, -3⟩, ⟨.int64, -4⟩], b₂) ∧ b₂.content = [] := by
  have hrun : ∃ bufs : Unit → Buffer, (bufferCalls Unit).Run (fun _ => .new)
      [.on () (.op (.append [1, 2, 3]))] bufs ∧ (bufs ()).content = [1, 2, 3] :=
    ⟨_, .snoc .nil trivial rfl, rfl⟩
  obtain ⟨bufs, h, hcontent⟩ := hrun
  obtain ⟨b₁, hb₁, hc₁, b₂, hb₂, hc₂⟩ := (typed_round_trip h ()).1
    [⟨.int8, -1⟩, ⟨.int16, -2⟩, ⟨.int32, -3⟩, ⟨.int64, -4⟩]
  rw [hcontent] at hc₁ hb₂
  exact ⟨bufs, h, b₁, hb₁, hc₁, b₂, hb₂, hc₂⟩

end Tmuduo
