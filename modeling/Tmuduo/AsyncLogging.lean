import Mathlib.Data.Nat.Notation
import Mathlib.Tactic.Common
import Tmuduo.Machine
import Tmuduo.Text

/-!
# The asynchronous log

`AsyncLogging` is `tmuduo::AsyncLogging` with its background thread, a `LogThread`. A pointer to a
buffer is an `Option`. `append` holds the mutex and is one step, and so is the critical section of
the background thread. The thread stands at a `Place` of `threadFunc`, and `stop` is three steps :
the call with its test, the store of `false`, and the return of `join`.

`AsyncLogging.Inv` is the invariant of the rotation. It rests on one fact that links the two
sides : while there is no next buffer, a filled one is queued, so the next collection holds two
buffers. `buffers_never_run_out` is the statement for every run.
-/

set_option autoImplicit false

namespace Tmuduo

/-! ## Fixed buffers -/

def kLargeBuffer : ℕ := 4000 * 1000

/-- `detail::FixedBuffer<SIZE>` : the bytes between `data_` and `cur_`. -/
structure FixedBuffer (SIZE : ℕ) where
  bytes : Bytes
  length_le : bytes.length ≤ SIZE
  deriving DecidableEq, Repr

namespace FixedBuffer

variable {SIZE : ℕ}

def new : FixedBuffer SIZE := ⟨[], Nat.zero_le _⟩

variable (b : FixedBuffer SIZE)

def length : ℕ := b.bytes.length

def avail : ℕ := SIZE - b.bytes.length

/-- `FixedBuffer::append`. What does not fit is left out. -/
def append (buf : Bytes) : FixedBuffer SIZE :=
  if h : b.avail > buf.length then
    ⟨b.bytes ++ buf, by
      unfold avail at h
      rw [List.length_append]
      omega⟩
  else b

def reset (_ : FixedBuffer SIZE) : FixedBuffer SIZE := ⟨[], Nat.zero_le _⟩

end FixedBuffer

/-! ## The log and its thread -/

/-- Where the background thread stands. `writing i` : before the `i`-th turn of the loop that
writes the buffers. -/
inductive Place
  | notStarted
  | started
  | loopHead
  | locking
  | waiting
  | collected
  | writing (i : ℕ)
  | recycling
  | exited
  deriving DecidableEq, Repr

/-- How far the call of `stop` has come. -/
inductive StopCall
  | notCalled
  | called
  | cleared
  | returned
  deriving DecidableEq, Repr

/-- The assertions of `threadFunc`, and the use of a null pointer. -/
inductive LogFault
  | running
  | newBuffer1
  | newBuffer2
  | buffersToWriteEmpty
  | collected
  | refill1
  | refill2
  | nullBuffer
  deriving DecidableEq, Repr

abbrev BufferPtr := Option (FixedBuffer kLargeBuffer)

abbrev BufferVector := List BufferPtr

/-- The background thread : where it stands and the locals of `threadFunc`. `output` is what the
`LogFile` has been given. -/
structure LogThread where
  place : Place
  newBuffer1 : BufferPtr
  newBuffer2 : BufferPtr
  buffersToWrite : BufferVector
  output : Bytes
  deriving DecidableEq, Repr

/-- `tmuduo::AsyncLogging`. -/
structure AsyncLogging where
  running : Bool
  currentBuffer : BufferPtr
  nextBuffer : BufferPtr
  buffers : BufferVector
  thread : LogThread
  stopCall : StopCall
  deriving DecidableEq, Repr

namespace LogThread

variable (t : LogThread)

/-- The line that stands for what was dropped. `now` is the formatted time. -/
def droppedNotice (now : Bytes) (size : ℕ) : Bytes :=
  snprintf 256 (ascii "Dropped log messages at " ++ now ++ ascii ", " ++
    decimal (size - 2) ++ ascii " larger buffers\n")

/-- After the critical section : too many buffers are dropped. -/
def drop (now : Bytes) : Except LogFault LogThread := do
  check (t.buffersToWrite ≠ []) .collected
  if t.buffersToWrite.length > 25 then
    return { t with
      output := t.output ++ droppedNotice now t.buffersToWrite.length
      buffersToWrite := t.buffersToWrite.take 2
      place := .writing 0 }
  else return { t with place := .writing 0 }

/-- The loop that writes the buffers, before its turn `i`. -/
def write (i : ℕ) : Except LogFault LogThread :=
  match t.buffersToWrite[i]? with
  | some (some b) => .ok { t with output := t.output ++ b.bytes, place := .writing (i + 1) }
  | some none => .error .nullBuffer
  | none => .ok { t with place := .recycling }

/-- `newBuffer = std::move(buffersToWrite.back())`, `pop_back` and `reset`, if there is no
`newBuffer`. -/
def refill (newBuffer : BufferPtr) (buffersToWrite : BufferVector) (e : LogFault) :
    Except LogFault (BufferPtr × BufferVector) :=
  if newBuffer ≠ none then .ok (newBuffer, buffersToWrite)
  else do
    check (buffersToWrite ≠ []) e
    match buffersToWrite.getLast? with
    | some (some b) => return (some b.reset, buffersToWrite.dropLast)
    | _ => .error .nullBuffer

/-- The part of the loop after the writes. -/
def recycle : Except LogFault LogThread := do
  let buffersToWrite := if t.buffersToWrite.length > 2 then t.buffersToWrite.take 2
    else t.buffersToWrite
  let (newBuffer1, buffersToWrite) ← refill t.newBuffer1 buffersToWrite .refill1
  let (newBuffer2, _) ← refill t.newBuffer2 buffersToWrite .refill2
  return { t with
    newBuffer1 := newBuffer1
    newBuffer2 := newBuffer2
    buffersToWrite := []
    place := .loopHead }

/-- The test of the loop and the assertions after it. -/
def loopHead (running : Bool) : Except LogFault LogThread :=
  if running then do
    check (t.newBuffer1.map FixedBuffer.length = some 0) .newBuffer1
    check (t.newBuffer2.map FixedBuffer.length = some 0) .newBuffer2
    check (t.buffersToWrite = []) .buffersToWriteEmpty
    return { t with place := .locking }
  else return { t with place := .exited }

end LogThread

namespace AsyncLogging

/-- `AsyncLogging::AsyncLogging`. -/
def new : AsyncLogging where
  running := false
  currentBuffer := some .new
  nextBuffer := some .new
  buffers := []
  thread := ⟨.notStarted, none, none, [], []⟩
  stopCall := .notCalled

variable (s : AsyncLogging)

def append (logline : Bytes) : Except LogFault AsyncLogging :=
  match s.currentBuffer with
  | none => .error .nullBuffer
  | some current =>
    if current.avail > logline.length then
      .ok { s with currentBuffer := some (current.append logline) }
    else
      -- without a next buffer a new one is allocated
      let current' := s.nextBuffer.getD .new
      .ok { s with
        buffers := s.buffers ++ [some current]
        nextBuffer := none
        currentBuffer := some (current'.append logline) }

/-- What the background thread does with the mutex held, after the wait. -/
def collect : AsyncLogging :=
  let buffersToWrite := s.buffers ++ [s.currentBuffer]
  let newBuffer2 := if s.nextBuffer = none then none else s.thread.newBuffer2
  { s with
    currentBuffer := s.thread.newBuffer1
    nextBuffer := if s.nextBuffer = none then s.thread.newBuffer2 else s.nextBuffer
    buffers := s.thread.buffersToWrite
    thread := ⟨.collected, none, newBuffer2, buffersToWrite, s.thread.output⟩ }

/-- One step of `threadFunc`. -/
def threadFunc (now : Bytes) : Except LogFault AsyncLogging :=
  match s.thread.place with
  | .notStarted | .exited => .ok s
  | .started => do
    check (s.running = true) .running
    return { s with thread := ⟨.loopHead, some .new, some .new, [], s.thread.output⟩ }
  | .loopHead => do
    let thread ← s.thread.loopHead s.running
    return { s with thread := thread }
  | .locking =>
    if s.buffers = [] then .ok { s with thread := { s.thread with place := .waiting } }
    else .ok s.collect
  | .waiting => .ok s.collect
  | .collected => do
    let thread ← s.thread.drop now
    return { s with thread := thread }
  | .writing i => do
    let thread ← s.thread.write i
    return { s with thread := thread }
  | .recycling => do
    let thread ← s.thread.recycle
    return { s with thread := thread }

end AsyncLogging

/-- The steps of the threads. -/
inductive LogStep
  | append (logline : Bytes)
  | start
  | background (now : Bytes)
  | stopCall
  | stopClear
  | stopJoin
  deriving DecidableEq, Repr

/-- Any number of threads append. `start` is called once, `stop` at most once and after `start`
has returned, which it does when the thread has counted the latch down. The wait of the
background thread may end at any time. -/
def asyncLogging : Machine AsyncLogging LogStep LogFault where
  enabled s
    | .append _ => True
    | .start => s.thread.place = .notStarted
    | .background _ => s.thread.place ≠ .notStarted ∧ s.thread.place ≠ .exited
    | .stopCall =>
      s.stopCall = .notCalled ∧ s.thread.place ≠ .notStarted ∧ s.thread.place ≠ .started
    | .stopClear => s.stopCall = .called
    | .stopJoin => s.stopCall = .cleared ∧ s.thread.place = .exited
  exec s
    | .append logline => s.append logline
    | .start => .ok { s with running := true, thread := { s.thread with place := .started } }
    | .background now => s.threadFunc now
    | .stopCall => .ok { s with stopCall := if s.running then .called else .returned }
    | .stopClear => .ok { s with running := false, stopCall := .cleared }
    | .stopJoin => .ok { s with stopCall := .returned }

instance (s : AsyncLogging) : ∀ l, Decidable (asyncLogging.enabled s l)
  | .append _ => isTrue trivial
  | .start => inferInstanceAs (Decidable (s.thread.place = .notStarted))
  | .background _ => inferInstanceAs (Decidable
      (s.thread.place ≠ .notStarted ∧ s.thread.place ≠ .exited))
  | .stopCall => inferInstanceAs (Decidable
      (s.stopCall = .notCalled ∧ s.thread.place ≠ .notStarted ∧ s.thread.place ≠ .started))
  | .stopClear => inferInstanceAs (Decidable (s.stopCall = .called))
  | .stopJoin => inferInstanceAs (Decidable (s.stopCall = .cleared ∧ s.thread.place = .exited))

/-! ## The rotation of the buffers -/

namespace LogThread

variable {t : LogThread}

/-- Both new buffers are there and empty, and nothing is left to write. -/
structure Ready (t : LogThread) : Prop where
  newBuffer1 : t.newBuffer1 = some .new
  newBuffer2 : t.newBuffer2 = some .new
  buffersToWrite : t.buffersToWrite = []

/-- A collection is there, and it has a buffer for each new buffer that is gone. -/
structure Collected (t : LogThread) : Prop where
  newBuffer1 : t.newBuffer1 = none
  newBuffer2 : ∀ b ∈ t.newBuffer2, b = .new
  nonnull : none ∉ t.buffersToWrite
  nonempty : t.buffersToWrite ≠ []
  two : t.newBuffer2 = none → 2 ≤ t.buffersToWrite.length

/-- The locals of the thread, by where it stands. -/
def Rotation (t : LogThread) : Prop :=
  match t.place with
  | .notStarted | .started => True
  | .loopHead | .locking | .waiting => t.Ready
  | .collected | .writing _ | .recycling => t.Collected
  | .exited => True

theorem Ready.loopHead (h : t.Ready) (running : Bool) :
    t.loopHead running = .ok { t with place := if running then .locking else .exited } := by
  cases running with
  | true =>
    have hnew : (FixedBuffer.new : FixedBuffer kLargeBuffer).length = 0 := rfl
    simp [LogThread.loopHead, h.newBuffer1, h.newBuffer2, h.buffersToWrite, hnew]
  | false => simp [LogThread.loopHead]

theorem Collected.drop (h : t.Collected) (now : Bytes) :
    ∃ u, t.drop now = .ok u ∧ u.place = .writing 0 ∧ u.Collected := by
  unfold LogThread.drop
  rw [check_of _ h.nonempty, ok_bind]
  split_ifs with hmany
  · refine ⟨_, rfl, rfl, h.newBuffer1, h.newBuffer2, fun hnull => ?_, ?_, fun _ => ?_⟩
    · exact h.nonnull (List.mem_of_mem_take hnull)
    · simp [h.nonempty]
    · simp only [List.length_take]
      omega
  · exact ⟨_, rfl, rfl, h.newBuffer1, h.newBuffer2, h.nonnull, h.nonempty, h.two⟩

theorem Collected.write (h : t.Collected) (i : ℕ) :
    ∃ u, t.write i = .ok u ∧ (u.place = .writing (i + 1) ∨ u.place = .recycling) ∧
      u.Collected := by
  unfold LogThread.write
  split
  · exact ⟨_, rfl, .inl rfl, h.newBuffer1, h.newBuffer2, h.nonnull, h.nonempty, h.two⟩
  · next hget => exact absurd (List.mem_of_getElem? hget) h.nonnull
  · exact ⟨_, rfl, .inr rfl, h.newBuffer1, h.newBuffer2, h.nonnull, h.nonempty, h.two⟩

/-- A new buffer that is gone is replaced by the last of the written buffers, emptied. -/
theorem refill_none {bs : BufferVector} (hnonempty : bs ≠ []) (hnonnull : none ∉ bs)
    (e : LogFault) : refill none bs e = .ok (some .new, bs.dropLast) := by
  have hlast := List.getLast?_eq_some_getLast hnonempty
  have hmem := List.getLast_mem hnonempty
  generalize bs.getLast hnonempty = b at hlast hmem
  cases b with
  | none => exact absurd hmem hnonnull
  | some b =>
    simp [refill, hnonempty, hlast]
    rfl

theorem refill_some (b : FixedBuffer kLargeBuffer) (bs : BufferVector) (e : LogFault) :
    refill (some b) bs e = .ok (some b, bs) := by
  simp [refill]

theorem Collected.recycle (h : t.Collected) :
    t.recycle = .ok ⟨.loopHead, some .new, some .new, [], t.output⟩ := by
  unfold LogThread.recycle
  generalize hbs : (if t.buffersToWrite.length > 2 then t.buffersToWrite.take 2
    else t.buffersToWrite) = bs
  have hnonempty : bs ≠ [] := by
    rw [← hbs]
    split_ifs
    · simp [h.nonempty]
    · exact h.nonempty
  have hnonnull : none ∉ bs := by
    rw [← hbs]
    split_ifs
    · exact fun hnull => h.nonnull (List.mem_of_mem_take hnull)
    · exact h.nonnull
  simp only [h.newBuffer1, refill_none hnonempty hnonnull, ok_bind]
  cases hnew : t.newBuffer2 with
  | some b =>
    obtain rfl := h.newBuffer2 b hnew
    simp only [refill_some, ok_bind, except_pure]
  | none =>
    have htwo : 2 ≤ bs.length := by
      have := h.two hnew
      rw [← hbs]
      split_ifs
      · rw [List.length_take]
        omega
      · exact this
    have hleft : bs.dropLast ≠ [] := by
      rw [← List.length_pos_iff, List.length_dropLast]
      omega
    simp only [refill_none hleft fun hnull => hnonnull (List.dropLast_subset bs hnull), ok_bind,
      except_pure]

end LogThread

namespace AsyncLogging

variable {s : AsyncLogging}

/-- `running_` is true from `start` until `stop` clears it. `stop` comes after `start` and
returns after the thread. -/
structure Stopping (s : AsyncLogging) : Prop where
  early : s.thread.place = .notStarted ∨ s.thread.place = .started → s.stopCall = .notCalled
  late : s.stopCall = .returned → s.thread.place = .exited
  running : s.thread.place ≠ .notStarted →
    (s.running = true ↔ s.stopCall = .notCalled ∨ s.stopCall = .called)

/-- What every step keeps. -/
structure Inv (s : AsyncLogging) : Prop where
  current : s.currentBuffer ≠ none
  next : ∀ b ∈ s.nextBuffer, b = .new
  queued : s.nextBuffer = none → s.buffers ≠ []
  nonnull : none ∉ s.buffers
  rotation : s.thread.Rotation
  stopping : s.Stopping

theorem Inv.new : Inv .new where
  current := by simp [AsyncLogging.new]
  next := by simp [AsyncLogging.new]
  queued := by simp [AsyncLogging.new]
  nonnull := List.not_mem_nil
  rotation := trivial
  stopping := ⟨fun _ => rfl, by simp [AsyncLogging.new], fun h => absurd rfl h⟩

theorem Inv.append (h : s.Inv) (logline : Bytes) : ∃ u, s.append logline = .ok u ∧ u.Inv := by
  obtain ⟨current, hcurrent⟩ := Option.ne_none_iff_exists'.mp h.current
  unfold AsyncLogging.append
  rw [hcurrent]
  simp only
  split_ifs with havail
  · exact ⟨_, rfl, by simp, h.next, h.queued, h.nonnull, h.rotation, h.stopping.early,
      h.stopping.late, h.stopping.running⟩
  · exact ⟨_, rfl, by simp, by simp, by simp, by simpa using h.nonnull, h.rotation,
      h.stopping.early, h.stopping.late, h.stopping.running⟩

/-- The collection takes the filled buffers and the current one. If it gives away the second new
buffer, there was no next buffer, and so it holds two buffers. -/
theorem Inv.collect (h : s.Inv) (hready : s.thread.Ready)
    (hplace : s.thread.place = .locking ∨ s.thread.place = .waiting) : s.collect.Inv where
  current := by simp [AsyncLogging.collect, hready.newBuffer1]
  next := by
    unfold AsyncLogging.collect
    split_ifs
    · simp [hready.newBuffer2]
    · exact h.next
  queued := by
    unfold AsyncLogging.collect
    split_ifs with hnext
    · simp [hready.newBuffer2]
    · exact fun hnone => absurd hnone hnext
  nonnull := by simp [AsyncLogging.collect, hready.buffersToWrite]
  rotation := by
    refine ⟨rfl, ?_, ?_, by simp [AsyncLogging.collect], fun hgone => ?_⟩
    · simp only [AsyncLogging.collect]
      split_ifs
      · simp
      · simp [hready.newBuffer2]
    · simpa [AsyncLogging.collect] using ⟨h.nonnull, h.current.symm⟩
    · simp only [AsyncLogging.collect] at hgone ⊢
      split_ifs at hgone with hnext
      · have := List.length_pos_iff.mpr (h.queued hnext)
        rw [List.length_append, List.length_singleton]
        omega
      · simp [hready.newBuffer2] at hgone
  stopping := by
    have hrunning := h.stopping.running (by rcases hplace with h | h <;> simp [h])
    refine ⟨by simp [AsyncLogging.collect], fun hstop => ?_, fun _ => hrunning⟩
    rcases hplace with hplace | hplace <;> exact absurd (h.stopping.late hstop) (by simp [hplace])

/-- A step of the thread that changes only the thread. -/
theorem Inv.of_thread (h : s.Inv) {t : LogThread} (ht : t.Rotation)
    (hs : s.thread.place ≠ .notStarted ∧ s.thread.place ≠ .exited)
    (hearly : t.place ≠ .notStarted ∧ t.place ≠ .started) :
    Inv { s with thread := t } where
  current := h.current
  next := h.next
  queued := h.queued
  nonnull := h.nonnull
  rotation := ht
  stopping := ⟨by simp [hearly], fun hstop => absurd (h.stopping.late hstop) hs.2,
    fun _ => h.stopping.running hs.1⟩

theorem Inv.threadFunc (h : s.Inv) (now : Bytes) : ∃ u, s.threadFunc now = .ok u ∧ u.Inv := by
  have hrot := h.rotation
  unfold LogThread.Rotation at hrot
  unfold AsyncLogging.threadFunc
  cases hplace : s.thread.place with
  | notStarted => exact ⟨s, rfl, h⟩
  | exited => exact ⟨s, rfl, h⟩
  | started =>
    have hrun : s.running = true :=
      (h.stopping.running (by simp [hplace])).mpr (.inl (h.stopping.early (.inr hplace)))
    simp only [check_of _ hrun, ok_bind, except_pure]
    exact ⟨_, rfl, h.of_thread ⟨rfl, rfl, rfl⟩ (by simp [hplace]) (by simp)⟩
  | loopHead =>
    rw [hplace] at hrot
    simp only [LogThread.Ready.loopHead hrot, ok_bind, except_pure]
    refine ⟨_, rfl, h.of_thread ?_ (by simp [hplace]) ?_⟩
    · cases s.running with
      | true => exact ⟨hrot.newBuffer1, hrot.newBuffer2, hrot.buffersToWrite⟩
      | false => trivial
    · cases s.running <;> simp
  | locking =>
    rw [hplace] at hrot
    simp only
    split_ifs
    · exact ⟨_, rfl, h.of_thread ⟨hrot.newBuffer1, hrot.newBuffer2, hrot.buffersToWrite⟩
        (by simp [hplace]) (by simp)⟩
    · exact ⟨_, rfl, h.collect hrot (.inl hplace)⟩
  | waiting =>
    rw [hplace] at hrot
    exact ⟨_, rfl, h.collect hrot (.inr hplace)⟩
  | collected =>
    rw [hplace] at hrot
    obtain ⟨t, ht, htplace, hcollected⟩ := hrot.drop now
    simp only [ht, ok_bind, except_pure]
    refine ⟨_, rfl, h.of_thread ?_ (by simp [hplace]) (by simp [htplace])⟩
    simpa only [LogThread.Rotation, htplace] using hcollected
  | writing i =>
    rw [hplace] at hrot
    obtain ⟨t, ht, htplace, hcollected⟩ := hrot.write i
    simp only [ht, ok_bind, except_pure]
    refine ⟨_, rfl, h.of_thread ?_ (by simp [hplace]) ?_⟩
    · rcases htplace with htplace | htplace <;>
        simpa only [LogThread.Rotation, htplace] using hcollected
    · rcases htplace with htplace | htplace <;> simp [htplace]
  | recycling =>
    rw [hplace] at hrot
    simp only [LogThread.Collected.recycle hrot, ok_bind, except_pure]
    exact ⟨_, rfl, h.of_thread ⟨rfl, rfl, rfl⟩ (by simp [hplace]) (by simp)⟩

theorem Inv.step : asyncLogging.Keeps Inv := by
  intro s l h he
  cases l with
  | append logline => exact h.append logline
  | background now => exact h.threadFunc now
  | start =>
    have hearly := h.stopping.early (.inl he)
    exact ⟨_, rfl, h.current, h.next, h.queued, h.nonnull, trivial, fun _ => hearly,
      by simp [hearly], fun _ => by simp [hearly]⟩
  | stopCall =>
    have hrun : s.running = true := (h.stopping.running he.2.1).mpr (.inl he.1)
    exact ⟨_, rfl, h.current, h.next, h.queued, h.nonnull, h.rotation, by simp [he.2],
      by simp [hrun], fun _ => by simp [hrun]⟩
  | stopClear =>
    refine ⟨_, rfl, h.current, h.next, h.queued, h.nonnull, h.rotation, fun hearly => ?_,
      by simp, fun _ => by simp⟩
    exact absurd ((h.stopping.early hearly).symm.trans he) (by decide)
  | stopJoin =>
    have hrun := h.stopping.running (by simp [he.2])
    refine ⟨_, rfl, h.current, h.next, h.queued, h.nonnull, h.rotation, by simp [he.2],
      fun _ => he.2, fun _ => ?_⟩
    simpa [he.1] using hrun

end AsyncLogging

/-- In every run no assertion of `threadFunc` fails and no null buffer is used, `currentBuffer_`
is not null, and `nextBuffer_` is null or empty. -/
theorem buffers_never_run_out {ls : List LogStep} {t : AsyncLogging}
    (hrun : asyncLogging.Run .new ls t) :
    (∀ l, asyncLogging.enabled t l → ∃ u, asyncLogging.exec t l = .ok u) ∧
    t.currentBuffer ≠ none ∧ ∀ b ∈ t.nextBuffer, b.length = 0 := by
  have h : t.Inv := AsyncLogging.Inv.step.run .new hrun
  refine ⟨fun l he => ?_, h.current, fun b hb => ?_⟩
  · obtain ⟨u, hu, -⟩ := AsyncLogging.Inv.step h he
    exact ⟨u, hu⟩
  · rw [h.next b hb]
    rfl

/-- The thread waits, a line is appended, and the thread collects and writes it. The buffers are
there for the steps that follow. -/
theorem buffers_never_run_out_one_line : ∃ t,
    asyncLogging.Run .new [.start, .background [], .background [], .background [],
      .append (ascii "a\n"), .background [], .background [], .background [], .background []] t ∧
    t.thread.place = .recycling ∧ t.thread.output = ascii "a\n" ∧
    (∃ u, asyncLogging.exec t (.background []) = .ok u) ∧ t.currentBuffer ≠ none ∧
    ∀ b ∈ t.nextBuffer, b.length = 0 := by
  have hrun : asyncLogging.Run .new [.start, .background [], .background [], .background [],
      .append (ascii "a\n"), .background [], .background [], .background [], .background []] _ :=
    .of_play rfl
  obtain ⟨hsafe, hcurrent, hnext⟩ := buffers_never_run_out hrun
  exact ⟨_, hrun, rfl, rfl, hsafe _ (by decide), hcurrent, hnext⟩

end Tmuduo
