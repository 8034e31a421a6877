import Mathlib.Logic.Relation
import Tmuduo.BufferQueue

/-!
# Reading from a descriptor, and the runs of a buffer

`Buffer.readFd` gives `readv` two areas, the writable space and a block on the stack, and appends
what went into the second one. What the kernel does is a parameter, a `Readv` : it fails, or it
delivers bytes, the first area before the second.

`bufferCalls` is the machine of any number of buffers with all their calls, `readFd` among them,
and `bufferCalls_invariant` the induction over its runs, for a property of one buffer.
`readFd_appends` says what `readFd` does to a buffer that a run has led to.
-/

set_option autoImplicit false

namespace Tmuduo

/-- What `readv` does : it fails and sets `errno`, or it delivers bytes. -/
inductive Readv
  | failed (errno : ℕ)
  | read (data : Bytes)
  deriving DecidableEq, Repr

/-- The bytes delivered. -/
def Readv.data : Readv → Bytes
  | failed _ => []
  | read data => data

/-- What `readFd` returns and leaves behind. `savedErrno` : what it wrote to its argument. -/
structure ReadFd where
  buf : Buffer
  n : ℤ
  savedErrno : Option ℕ
  deriving DecidableEq, Repr

namespace Buffer

/-- `sizeof(extrabuf)`. -/
def kExtraSize : ℕ := 65536

def readFd (b : Buffer) : Readv → Except BufferAssert ReadFd
  | .failed errno => .ok ⟨b, -1, some errno⟩
  | .read data =>
    let writable := b.writableBytes
    -- The kernel fills the first area, and then the second one.
    let filled := b.fill (data.take writable)
    let extrabuf := (data.drop writable).take kExtraSize
    if data.length ≤ writable then .ok ⟨filled.hasWritten data.length, data.length, none⟩
    else do
      let full := { filled with writerIndex := filled.buffer.length }
      let b' ← full.append (extrabuf.take (data.length - writable))
      return ⟨b', data.length, none⟩

/-- The bytes fit into the two areas. -/
def Fits (b : Buffer) (result : Readv) : Prop :=
  result.data.length ≤ b.writableBytes + kExtraSize

instance (b : Buffer) (result : Readv) : Decidable (b.Fits result) :=
  inferInstanceAs (Decidable (_ ≤ _))

variable {b : Buffer}

/-- The writable space is full : its bytes are content. -/
theorem Valid.full (h : b.Valid) {data : Bytes} (hlen : data.length = b.writableBytes) :
    { b.fill data with writerIndex := (b.fill data).buffer.length } =
      (b.fill data).hasWritten data.length := by
  have hw := h.writer_le
  have hsum : b.writerIndex + data.length = b.buffer.length := by
    unfold writableBytes at hlen
    omega
  have hl : (b.fill data).buffer.length = b.writerIndex + data.length := by
    rw [hsum]
    exact length_splice _ (Nat.le_of_eq hsum)
  rw [hl]
  rfl

/-- The second area holds what did not go into the first. -/
theorem extra_eq {data : Bytes} (hle : ¬data.length ≤ b.writableBytes)
    (hfits : b.Fits (.read data)) :
    ((data.drop b.writableBytes).take kExtraSize).take (data.length - b.writableBytes) =
      data.drop b.writableBytes := by
  have hbound : data.length ≤ b.writableBytes + kExtraSize := hfits
  rw [List.take_take, List.take_of_length_le]
  rw [List.length_drop]
  omega

/-- What is read is appended to the content, whichever area it was put in. -/
theorem Valid.readFd_read (h : b.Valid) {data : Bytes} (hfits : b.Fits (.read data)) :
    ∃ b', b.readFd (.read data) = .ok ⟨b', data.length, none⟩ ∧ b'.Valid ∧
      b'.content = b.content ++ data := by
  by_cases hle : data.length ≤ b.writableBytes
  · obtain ⟨hv, hc⟩ := h.hasWritten hle
    refine ⟨(b.fill data).hasWritten data.length, ?_, hv, hc⟩
    simp [Buffer.readFd, hle, List.take_of_length_le hle]
  · have hlen : (data.take b.writableBytes).length = b.writableBytes := by
      rw [List.length_take]
      omega
    have hextra := extra_eq hle hfits
    obtain ⟨hv, hc⟩ := h.hasWritten (Nat.le_of_eq hlen)
    obtain ⟨b', hb', hv', hc'⟩ := hv.append (data.drop b.writableBytes)
    refine ⟨b', ?_, hv', ?_⟩
    · simp only [Buffer.readFd, if_neg hle, hextra, h.full hlen, hb', ok_bind]
      rfl
    · rw [hc', hc, List.append_assoc, List.take_append_drop]

/-! ## What a call is made of -/

/-- The changes that the calls are made of. `P` is a condition on `ensureWritableBytes(len)`, which
is what makes space. -/
inductive Change (P : Buffer → ℕ → Prop) (b : Buffer) : Buffer → Prop
  | retrieve (len : ℕ) : Change P b (b.retrieve len)
  | prepend {data : Bytes} {b' : Buffer} : b.prepend data = .ok b' → Change P b b'
  | makeSpace {len : ℕ} {b' : Buffer} : P b len → b.writableBytes < len →
      b.makeSpace len = .ok b' → Change P b b'
  | write {data : Bytes} : data.length ≤ b.writableBytes →
      Change P b ((b.fill data).hasWritten data.length)

variable {P : Buffer → ℕ → Prop} {b b' : Buffer}

theorem Valid.change (h : b.Valid) (hchange : Change P b b') : b'.Valid := by
  cases hchange with
  | retrieve len => exact h.retrieve len
  | prepend hcall =>
    obtain ⟨hlen, -⟩ := check_bind_eq_ok_iff.mp hcall
    obtain ⟨b'', hb'', hv, -⟩ := h.prepend hlen
    obtain rfl := Except.ok.inj (hcall.symm.trans hb'')
    exact hv
  | makeSpace _ hlen hcall =>
    obtain ⟨b'', hb'', hv, -⟩ := h.makeSpace hlen
    obtain rfl := Except.ok.inj (hcall.symm.trans hb'')
    exact hv
  | write hlen => exact (h.hasWritten hlen).1

/-- A chain of changes. -/
abbrev Changes (P : Buffer → ℕ → Prop) : Buffer → Buffer → Prop :=
  Relation.ReflTransGen (Change P)

theorem changes_ensureWritableBytes {len : ℕ} (hP : P b len)
    (hcall : b.ensureWritableBytes len = .ok b') : Changes P b b' := by
  unfold ensureWritableBytes at hcall
  split_ifs at hcall with hlen
  · obtain ⟨b₁, hb₁, hcall⟩ := bind_eq_ok_iff.mp hcall
    obtain ⟨-, hcall⟩ := check_bind_eq_ok_iff.mp hcall
    obtain rfl := Except.ok.inj hcall
    exact .single (.makeSpace hP hlen hb₁)
  · obtain ⟨-, hcall⟩ := check_bind_eq_ok_iff.mp hcall
    obtain rfl := Except.ok.inj hcall
    exact .refl

theorem changes_append (h : b.Valid) {data : Bytes} (hP : P b data.length)
    (hcall : b.append data = .ok b') : Changes P b b' := by
  obtain ⟨b₁, hb₁, -, -, hle⟩ := h.ensureWritableBytes data.length
  simp only [append, hb₁, ok_bind] at hcall
  obtain rfl := Except.ok.inj hcall
  exact (changes_ensureWritableBytes hP hb₁).tail (.write hle)

end Buffer

/-- The calls of `ensureWritableBytes` that a call makes : the buffer each is made on, and its
argument. -/
def BufferOp.ensured (b : Buffer) : BufferOp → List (Buffer × ℕ)
  | append data => [(b, data.length)]
  | ensureWritableBytes len => [(b, len)]
  | shrink reserve =>
    let other := Buffer.new.ensureWritableBytes (b.readableBytes + reserve)
    (.new, b.readableBytes + reserve) :: other.toOption.toList.map (·, b.content.length)
  | _ => []

namespace BufferOp

variable {P : Buffer → ℕ → Prop} {b b' : Buffer}

/-- `shrink` builds a new buffer. -/
theorem changes_shrink {reserve : ℕ} (hP : ∀ p ∈ (shrink reserve).ensured b, P p.1 p.2)
    (hcall : b.shrink reserve = .ok b') : Buffer.Changes P .new b' := by
  obtain ⟨other, hother, hv, -, -⟩ :=
    Buffer.new_valid.ensureWritableBytes (b.readableBytes + reserve)
  have hensured : (shrink reserve).ensured b =
      [(.new, b.readableBytes + reserve), (other, b.content.length)] := by
    rw [ensured, hother]
    rfl
  rw [hensured, List.forall_mem_cons, List.forall_mem_singleton] at hP
  simp only [Buffer.shrink, Buffer.ctor_eq, ok_bind, hother] at hcall
  obtain ⟨b₂, hb₂, hcall⟩ := bind_eq_ok_iff.mp hcall
  obtain rfl := Except.ok.inj hcall
  exact (Buffer.changes_ensureWritableBytes hP.1 hother).trans (Buffer.changes_append hv hP.2 hb₂)

/-- What a call leaves is made from the buffer, or from a new one, by changes. -/
theorem changes_exec (h : b.Valid) {op : BufferOp} (hpre : op.Pre b)
    (hP : ∀ p ∈ op.ensured b, P p.1 p.2) {out : List Bytes}
    (hcall : op.exec b = .ok (b', out)) :
    Buffer.Changes P b b' ∨ Buffer.Changes P .new b' := by
  cases op with
  | append data =>
    obtain ⟨b₁, hb₁, heq⟩ := map_eq_ok_iff.mp hcall
    obtain ⟨rfl, -⟩ := Prod.mk.inj heq
    exact .inl (Buffer.changes_append h (hP _ List.mem_cons_self) hb₁)
  | prepend data =>
    obtain ⟨b₁, hb₁, heq⟩ := map_eq_ok_iff.mp hcall
    obtain ⟨rfl, -⟩ := Prod.mk.inj heq
    exact .inl (.single (.prepend hb₁))
  | retrieve len =>
    obtain ⟨rfl, -⟩ := Prod.mk.inj (Except.ok.inj hcall)
    exact .inl (.single (.retrieve len))
  | retrieveUntil k =>
    obtain ⟨b₁, hb₁, heq⟩ := map_eq_ok_iff.mp hcall
    obtain ⟨rfl, -⟩ := Prod.mk.inj heq
    obtain ⟨-, hb₁⟩ := check_bind_eq_ok_iff.mp hb₁
    obtain ⟨-, hb₁⟩ := check_bind_eq_ok_iff.mp hb₁
    obtain rfl := Except.ok.inj hb₁
    exact .inl (.single (.retrieve _))
  | retrieveAll =>
    obtain ⟨rfl, -⟩ := Prod.mk.inj (Except.ok.inj hcall)
    have hall : b.retrieve b.readableBytes = b.retrieveAll := if_neg (Nat.lt_irrefl _)
    rw [← hall]
    exact .inl (.single (.retrieve _))
  | retrieveAsString len =>
    obtain ⟨p, hp, heq⟩ := map_eq_ok_iff.mp hcall
    obtain ⟨rfl, -⟩ := Prod.mk.inj heq
    obtain ⟨-, hp⟩ := check_bind_eq_ok_iff.mp hp
    obtain rfl := Except.ok.inj hp
    exact .inl (.single (.retrieve len))
  | ensureWritableBytes len =>
    obtain ⟨b₁, hb₁, heq⟩ := map_eq_ok_iff.mp hcall
    obtain ⟨rfl, -⟩ := Prod.mk.inj heq
    exact .inl (Buffer.changes_ensureWritableBytes (hP _ List.mem_cons_self) hb₁)
  | hasWritten data =>
    obtain ⟨rfl, -⟩ := Prod.mk.inj (Except.ok.inj hcall)
    exact .inl (.single (.write hpre))
  | shrink reserve =>
    rw [exec, map_eq_ok_iff] at hcall
    obtain ⟨b₁, hb₁, heq⟩ := hcall
    obtain ⟨rfl, -⟩ := Prod.mk.inj heq
    exact .inr (changes_shrink hP hb₁)

end BufferOp

/-! ## Runs -/

/-- A call on one buffer. -/
inductive BufferCall
  | op (op : BufferOp)
  | readFd (result : Readv)
  deriving DecidableEq, Repr

namespace BufferCall

/-- What the caller, or the kernel, has to keep. -/
def Pre (b : Buffer) : BufferCall → Prop
  | op o => o.Pre b
  | readFd result => b.Fits result

def exec (b : Buffer) : BufferCall → Except BufferAssert Buffer
  | op o => (o.exec b).map Prod.fst
  | readFd result => (b.readFd result).map ReadFd.buf

/-- The calls of `ensureWritableBytes` that a call makes. -/
def ensured (b : Buffer) : BufferCall → List (Buffer × ℕ)
  | op o => o.ensured b
  | readFd result =>
    let writable := b.writableBytes
    let filled := b.fill (result.data.take writable)
    if result.data.length ≤ writable then []
    else [({ filled with writerIndex := filled.buffer.length }, result.data.length - writable)]

variable {P : Buffer → ℕ → Prop} {b b' : Buffer}

theorem changes_readFd (h : b.Valid) {result : Readv} (hfits : b.Fits result)
    (hP : ∀ p ∈ (readFd result).ensured b, P p.1 p.2) {r : ReadFd}
    (hcall : b.readFd result = .ok r) : Buffer.Changes P b r.buf := by
  cases result with
  | failed errno =>
    obtain rfl := Except.ok.inj hcall
    exact .refl
  | read data =>
    by_cases hle : data.length ≤ b.writableBytes
    · simp only [Buffer.readFd, if_pos hle, List.take_of_length_le hle, Except.ok.injEq] at hcall
      subst hcall
      exact .single (.write hle)
    · have hlen : (data.take b.writableBytes).length = b.writableBytes := by
        rw [List.length_take]
        omega
      simp only [Buffer.readFd, if_neg hle, Buffer.extra_eq hle hfits, h.full hlen] at hcall
      obtain ⟨b', hb', hcall⟩ := bind_eq_ok_iff.mp hcall
      obtain rfl := Except.ok.inj hcall
      simp only [ensured, Readv.data, if_neg hle, h.full hlen, List.forall_mem_singleton] at hP
      obtain ⟨hv, -⟩ := h.hasWritten (Nat.le_of_eq hlen)
      refine .head (.write (Nat.le_of_eq hlen)) (Buffer.changes_append hv ?_ hb')
      rwa [List.length_drop]

theorem changes_exec (h : b.Valid) {call : BufferCall} (hpre : call.Pre b)
    (hP : ∀ p ∈ call.ensured b, P p.1 p.2) (hcall : call.exec b = .ok b') :
    Buffer.Changes P b b' ∨ Buffer.Changes P .new b' := by
  cases call with
  | op o =>
    obtain ⟨⟨b₁, out⟩, hb₁, rfl⟩ := map_eq_ok_iff.mp hcall
    exact BufferOp.changes_exec h hpre hP hb₁
  | readFd result =>
    obtain ⟨r, hr, rfl⟩ := map_eq_ok_iff.mp hcall
    exact .inl (changes_readFd h hpre hP hr)

end BufferCall

/-- A call on one of several buffers, or a swap of two. -/
inductive PoolCall (ι : Type*)
  | on (i : ι) (call : BufferCall)
  | swap (i j : ι)

variable {ι : Type*} [DecidableEq ι]

/-- Any number of buffers, with all their calls. -/
def bufferCalls (ι : Type*) [DecidableEq ι] : Machine (ι → Buffer) (PoolCall ι) BufferAssert where
  enabled bufs
    | .on i call => call.Pre (bufs i)
    | .swap _ _ => True
  exec bufs
    | .on i call => (call.exec (bufs i)).map (Function.update bufs i)
    | .swap i j =>
        let r := (bufs i).swap (bufs j)
        .ok (Function.update (Function.update bufs i r.1) j r.2)

/-- Every `ensureWritableBytes(len)` that the call makes meets `P`. -/
def Ensures (P : Buffer → ℕ → Prop) (bufs : ι → Buffer) : PoolCall ι → Prop
  | .on i call => ∀ p ∈ call.ensured (bufs i), P p.1 p.2
  | .swap _ _ => True

/-- What new buffers have and every change of a valid buffer keeps, all buffers have wherever a run
leads. -/
theorem bufferCalls_invariant {P : Buffer → ℕ → Prop} {Inv : Buffer → Prop}
    {ls : List (PoolCall ι)} {bufs : ι → Buffer}
    (h : ((bufferCalls ι).restrict (Ensures P)).Run (fun _ => .new) ls bufs) (new : Inv .new)
    (step : ∀ ⦃b b'⦄, b.Valid → Inv b → Buffer.Change P b b' → Inv b') (i : ι) :
    (bufs i).Valid ∧ Inv (bufs i) := by
  have hchain : ∀ {b b' : Buffer}, Buffer.Changes P b b' → b.Valid ∧ Inv b → b'.Valid ∧ Inv b' := by
    intro b b' hchanges hb
    induction hchanges with
    | refl => exact hb
    | tail _ hchange ih => exact ⟨ih.1.change hchange, step ih.1 ih.2 hchange⟩
  have hset : ∀ {f : ι → Buffer} {k : ι} {b : Buffer}, (∀ j, (f j).Valid ∧ Inv (f j)) →
      b.Valid ∧ Inv b → ∀ j, (Function.update f k b j).Valid ∧ Inv (Function.update f k b j) := by
    intro f k b hf hb j
    rcases eq_or_ne j k with rfl | hj
    · rwa [Function.update_self]
    · rw [Function.update_of_ne hj]
      exact hf j
  refine @Machine.Run.invariant _ _ _ _ (fun bufs => ∀ i, (bufs i).Valid ∧ Inv (bufs i)) _ _ _ h
    (fun _ => ⟨Buffer.new_valid, new⟩) ?_ i
  rintro bufs call bufs' hinv ⟨henabled, hP⟩ hexec
  cases call with
  | on k call =>
    obtain ⟨b', hb', rfl⟩ := map_eq_ok_iff.mp hexec
    rcases BufferCall.changes_exec (hinv k).1 henabled hP hb' with hchanges | hchanges
    · exact hset hinv (hchain hchanges (hinv k))
    · exact hset hinv (hchain hchanges ⟨Buffer.new_valid, new⟩)
  | swap k j =>
    obtain rfl := Except.ok.inj hexec
    exact hset (hset hinv (hinv j)) (hinv k)

/-- Every run is one in which `ensureWritableBytes` has to meet no condition. -/
theorem run_ensures_true {ls : List (PoolCall ι)} {bufs bufs' : ι → Buffer}
    (h : (bufferCalls ι).Run bufs ls bufs') :
    ((bufferCalls ι).restrict (Ensures fun _ _ => True)).Run bufs ls bufs' := by
  refine h.restrict_of_forall fun bufs call => ?_
  cases call with
  | on i call => exact fun _ _ => trivial
  | swap i j => trivial

theorem bufferCalls_valid {ls : List (PoolCall ι)} {bufs : ι → Buffer}
    (h : (bufferCalls ι).Run (fun _ => .new) ls bufs) (i : ι) : (bufs i).Valid :=
  (bufferCalls_invariant (run_ensures_true h) trivial (fun _ _ _ _ _ => trivial) i).1

/-- For every buffer that a run has led to, and everything that `readv` may deliver into the two
areas : the call returns the number of the bytes, and they are appended to the content. When
`readv` fails, the buffer stays as it is. The indices are in order in all cases. -/
theorem readFd_appends {ls : List (PoolCall ι)} {bufs : ι → Buffer}
    (h : (bufferCalls ι).Run (fun _ => .new) ls bufs) (i : ι) :
    (∀ data, (bufs i).Fits (.read data) → ∃ b',
      (bufs i).readFd (.read data) = .ok ⟨b', data.length, none⟩ ∧
      b'.content = (bufs i).content ++ data ∧ b'.readerIndex ≤ b'.writerIndex ∧
      b'.writerIndex ≤ b'.buffer.length) ∧
    (∀ errno, (bufs i).readFd (.failed errno) = .ok ⟨bufs i, -1, some errno⟩ ∧
      (bufs i).readerIndex ≤ (bufs i).writerIndex ∧
      (bufs i).writerIndex ≤ (bufs i).buffer.length) := by
  have hv := bufferCalls_valid h i
  refine ⟨fun data hfits => ?_, fun errno => ⟨rfl, hv.reader_le, hv.writer_le⟩⟩
  obtain ⟨b', hb', hv', hc⟩ := hv.readFd_read hfits
  exact ⟨b', hb', hc, hv'.reader_le, hv'.writer_le⟩

set_option maxRecDepth 20000 in
/-- A buffer of which a part has been retrieved, and more bytes than its writable space holds. -/
theorem readFd_appends_overflow : ∃ bufs : Unit → Buffer,
    (bufferCalls Unit).Run (fun _ => .new)
      [.on () (.op (.append [1, 2, 3])), .on () (.op (.retrieve 1))] bufs ∧
    (bufs ()).writableBytes = 1021 ∧
    ∃ b', (bufs ()).readFd (.read (List.replicate 1100 7)) = .ok ⟨b', 1100, none⟩ ∧
      b'.content = [2, 3] ++ List.replicate 1100 7 := by
  have hrun : ∃ bufs : Unit → Buffer, (bufferCalls Unit).Run (fun _ => .new)
      [.on () (.op (.append [1, 2, 3])), .on () (.op (.retrieve 1))] bufs ∧
      (bufs ()).writableBytes = 1021 ∧ (bufs ()).content = [2, 3] :=
    ⟨_, .snoc (.snoc .nil trivial rfl) trivial rfl, rfl, rfl⟩
  obtain ⟨bufs, h, hwritable, hcontent⟩ := hrun
  have hfits : (bufs ()).Fits (.read (List.replicate 1100 7)) := by
    simp [Buffer.Fits, Readv.data, Buffer.kExtraSize]
  obtain ⟨b', hb', hc, -⟩ := (readFd_appends h ()).1 _ hfits
  refine ⟨bufs, h, hwritable, b', ?_, ?_⟩
  · simpa using hb'
  · rw [hc, hcontent]

end Tmuduo
