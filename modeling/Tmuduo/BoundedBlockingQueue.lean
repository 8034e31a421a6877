import Tmuduo.CondVar
import Tmuduo.Machine

/-!
# The bounded blocking queue

`BoundedBlockingQueue T ι` is `tmuduo::BoundedBlockingQueue<T>` in the hands of the threads `ι`. A
step is what a call does between taking the lock and giving it up : the test of the loop of `put`
or `take`, and then the wait or the rest of the call. Which waiter `notify_one` wakes, in which
order the calls get the lock, and when a waiter wakes up for no reason is the environment's choice.

`bounded_queue_fifo` is the statement for every run : values leave in the order in which they came,
the queue stays within `maxSize_`, and no wakeup is lost on either side.
-/

set_option autoImplicit false

namespace Tmuduo

/-- `tmuduo::BoundedBlockingQueue`. A producer waits with the value of its call. `puts` and
`takes` are the values put and taken, in the order of the lock. -/
structure BoundedBlockingQueue (T ι : Type) where
  maxSize : ℕ
  queue : List T
  notEmpty : CondVar ι
  notFull : CondVar (ι × T)
  puts : List T
  takes : List T

/-- The assertion of `put`. -/
inductive QueueAssert
  | putSize
  deriving DecidableEq, Repr

namespace BoundedBlockingQueue

variable {T ι : Type}

/-- `BoundedBlockingQueue::BoundedBlockingQueue`. -/
def new (maxSize : ℕ) : BoundedBlockingQueue T ι where
  maxSize := maxSize
  queue := []
  notEmpty := .new
  notFull := .new
  puts := []
  takes := []

variable (q : BoundedBlockingQueue T ι)

/-- Either `put`, by the thread `t`, from a test of its loop on. `notify_one` wakes the `i`-th
consumer that waits. -/
def put (t : ι) (x : T) (i : ℕ) : Except QueueAssert (BoundedBlockingQueue T ι) :=
  if q.queue.length = q.maxSize then return { q with notFull := q.notFull.wait (t, x) }
  else do
    check (q.queue.length < q.maxSize) .putSize
    return { q with
      queue := q.queue ++ [x]
      notEmpty := q.notEmpty.notifyOne i
      puts := q.puts ++ [x] }

/-- `take`, by the thread `t`, from a test of its loop on. `notify_one` wakes the `i`-th producer
that waits. -/
def take (t : ι) (i : ℕ) : BoundedBlockingQueue T ι :=
  match q.queue with
  | [] => { q with notEmpty := q.notEmpty.wait t }
  | front :: rest =>
    { q with
      queue := rest
      notFull := q.notFull.notifyOne i
      takes := q.takes ++ [front] }

/-- The thread is not inside a call. -/
def Outside (t : ι) : Prop :=
  t ∉ q.notEmpty.waiting ∧ t ∉ q.notEmpty.woken ∧ (∀ c ∈ q.notFull.waiting, c.1 ≠ t) ∧
    ∀ c ∈ q.notFull.woken, c.1 ≠ t

instance [DecidableEq ι] (t : ι) : Decidable (q.Outside t) :=
  inferInstanceAs (Decidable (_ ∧ _ ∧ (∀ c ∈ q.notFull.waiting, c.1 ≠ t) ∧
    ∀ c ∈ q.notFull.woken, c.1 ≠ t))

end BoundedBlockingQueue

/-- A step of the threads. `resumePut k` and `resumeTake k` : the `k`-th call that was woken gets
the lock back. `wakePut k` and `wakeTake k` : the `k`-th call that waits wakes up for no reason. -/
inductive QueueStep (T ι : Type)
  | put (t : ι) (x : T) (i : ℕ)
  | take (t : ι) (i : ℕ)
  | resumePut (k i : ℕ)
  | resumeTake (k i : ℕ)
  | wakePut (k : ℕ)
  | wakeTake (k : ℕ)
  deriving DecidableEq, Repr

/-- The queue under any number of producers and consumers. -/
def boundedQueue (T ι : Type) :
    Machine (BoundedBlockingQueue T ι) (QueueStep T ι) QueueAssert where
  enabled q
    | .put t _ i => q.Outside t ∧ q.notEmpty.CanNotify i
    | .take t i => q.Outside t ∧ q.notFull.CanNotify i
    | .resumePut k i => k < q.notFull.woken.length ∧ q.notEmpty.CanNotify i
    | .resumeTake k i => k < q.notEmpty.woken.length ∧ q.notFull.CanNotify i
    | .wakePut k => k < q.notFull.waiting.length
    | .wakeTake k => k < q.notEmpty.waiting.length
  exec q
    | .put t x i => q.put t x i
    | .take t i => .ok (q.take t i)
    | .resumePut k i =>
        match q.notFull.woken[k]? with
        | some (t, x) => ({ q with notFull := q.notFull.resume k }).put t x i
        | none => .ok q
    | .resumeTake k i =>
        match q.notEmpty.woken[k]? with
        | some t => .ok (({ q with notEmpty := q.notEmpty.resume k }).take t i)
        | none => .ok q
    | .wakePut k => .ok { q with notFull := q.notFull.wake k }
    | .wakeTake k => .ok { q with notEmpty := q.notEmpty.wake k }

instance {T ι : Type} [DecidableEq ι] (q : BoundedBlockingQueue T ι) :
    ∀ l, Decidable ((boundedQueue T ι).enabled q l)
  | .put t _ i => inferInstanceAs (Decidable (q.Outside t ∧ q.notEmpty.CanNotify i))
  | .take t i => inferInstanceAs (Decidable (q.Outside t ∧ q.notFull.CanNotify i))
  | .resumePut k i => inferInstanceAs (Decidable
      (k < q.notFull.woken.length ∧ q.notEmpty.CanNotify i))
  | .resumeTake k i => inferInstanceAs (Decidable
      (k < q.notEmpty.woken.length ∧ q.notFull.CanNotify i))
  | .wakePut k => inferInstanceAs (Decidable (k < q.notFull.waiting.length))
  | .wakeTake k => inferInstanceAs (Decidable (k < q.notEmpty.waiting.length))

namespace BoundedBlockingQueue

variable {T ι : Type} {q : BoundedBlockingQueue T ι} {n : ℕ}

/-! ## The invariant -/

/-- The queue holds what was put and not taken, within its bound `n`, and for each value and each
free place a call is on its way if one is left waiting for it. -/
structure Inv (n : ℕ) (q : BoundedBlockingQueue T ι) : Prop where
  maxSize : q.maxSize = n
  fifo : q.takes ++ q.queue = q.puts
  size : q.queue.length ≤ n
  consumers : q.notEmpty.Covers q.queue.length
  producers : q.notFull.Covers (n - q.queue.length)

theorem Inv.new (n : ℕ) : Inv n (BoundedBlockingQueue.new n : BoundedBlockingQueue T ι) where
  maxSize := rfl
  fifo := rfl
  size := Nat.zero_le n
  consumers := CondVar.covers_new _
  producers := CondVar.covers_new _

/-- A `put` that has the lock. Only the places that are left after it need to be covered : it may
have been woken for one itself. -/
theorem put_inv {t : ι} {x : T} {i : ℕ} (hmax : q.maxSize = n)
    (hfifo : q.takes ++ q.queue = q.puts) (hsize : q.queue.length ≤ n)
    (hconsumers : q.notEmpty.Covers q.queue.length)
    (hproducers : q.notFull.Covers (n - (q.queue.length + 1))) (hi : q.notEmpty.CanNotify i) :
    ∃ u, q.put t x i = .ok u ∧ Inv n u := by
  unfold put
  by_cases hfull : q.queue.length = q.maxSize
  · rw [if_pos hfull]
    refine ⟨_, rfl, hmax, hfifo, hsize, hconsumers, ?_⟩
    have hnone : n - q.queue.length = 0 := by omega
    simp only [hnone]
    exact CondVar.covers_zero _
  · have hlt : q.queue.length < q.maxSize := by omega
    rw [if_neg hfull, check_of _ hlt, ok_bind]
    refine ⟨_, rfl, hmax, ?_, ?_, ?_, ?_⟩
    · simp only [← List.append_assoc, hfifo]
    · simp only [List.length_append, List.length_singleton]
      omega
    · simp only [List.length_append, List.length_singleton]
      exact hconsumers.notifyOne hi
    · simpa only [List.length_append, List.length_singleton] using hproducers

/-- A `take` that has the lock. Only the values that are left after it need to be covered. -/
theorem take_inv {t : ι} {i : ℕ} (hmax : q.maxSize = n) (hfifo : q.takes ++ q.queue = q.puts)
    (hsize : q.queue.length ≤ n) (hconsumers : q.notEmpty.Covers (q.queue.length - 1))
    (hproducers : q.notFull.Covers (n - q.queue.length)) (hi : q.notFull.CanNotify i) :
    Inv n (q.take t i) := by
  unfold take
  split
  · next hqueue =>
    refine ⟨hmax, hfifo, hsize, ?_, hproducers⟩
    simp only [hqueue, List.length_nil]
    exact CondVar.covers_zero _
  · next front rest hqueue =>
    rw [hqueue] at hfifo hsize hconsumers hproducers
    simp only [List.length_cons] at hsize hconsumers hproducers
    have hfree : n - rest.length = n - (rest.length + 1) + 1 := by omega
    refine ⟨hmax, ?_, by simp only; omega, by simpa using hconsumers, ?_⟩
    · simp only [← hfifo, List.append_assoc, List.singleton_append]
    · simp only [hfree]
      exact hproducers.notifyOne hi

/-- No step fails, and every step keeps the invariant. -/
theorem Inv.step : (boundedQueue T ι).Keeps (Inv n) := by
  intro q l h he
  cases l with
  | put t x i =>
    exact put_inv h.maxSize h.fifo h.size h.consumers (h.producers.mono (by omega)) he.2
  | take t i =>
    exact ⟨_, rfl, take_inv h.maxSize h.fifo h.size (h.consumers.mono (by omega)) h.producers he.2⟩
  | resumePut k i =>
    obtain ⟨hk, hi⟩ := he
    obtain ⟨⟨t, x⟩, hcall⟩ : ∃ c, q.notFull.woken[k]? = some c :=
      ⟨_, List.getElem?_eq_getElem hk⟩
    simp only [boundedQueue, hcall]
    refine put_inv h.maxSize h.fifo h.size h.consumers ?_ hi
    -- the call that goes on was one of those on their way for a free place
    by_cases hfull : q.queue.length = n
    · have hnone : n - (q.queue.length + 1) = 0 := by omega
      simp only [hnone]
      exact CondVar.covers_zero _
    · have hsize := h.size
      have hfree : n - q.queue.length = n - (q.queue.length + 1) + 1 := by omega
      have hproducers := h.producers
      rw [hfree] at hproducers
      exact hproducers.resume hk
  | resumeTake k i =>
    obtain ⟨hk, hi⟩ := he
    obtain ⟨t, hcall⟩ : ∃ c, q.notEmpty.woken[k]? = some c := ⟨_, List.getElem?_eq_getElem hk⟩
    simp only [boundedQueue, hcall]
    refine ⟨_, rfl, take_inv h.maxSize h.fifo h.size ?_ h.producers hi⟩
    -- and here for a value
    by_cases hempty : q.queue.length = 0
    · simp only [hempty]
      exact CondVar.covers_zero _
    · have hvalue : q.queue.length = q.queue.length - 1 + 1 := by omega
      have hconsumers := h.consumers
      rw [hvalue] at hconsumers
      exact hconsumers.resume hk
  | wakePut k =>
    exact ⟨_, rfl, h.maxSize, h.fifo, h.size, h.consumers, h.producers.wake k⟩
  | wakeTake k =>
    exact ⟨_, rfl, h.maxSize, h.fifo, h.size, h.consumers.wake k, h.producers⟩

end BoundedBlockingQueue

/-! ## Every run -/

/-- In every state that any number of producers and consumers can reach : the values taken and
then the queue are the values put, the queue is within its bound, no step fails, a consumer is left
waiting only if as many consumers are on their way as there are values, and a producer only if as
many producers are on their way as there are free places. -/
theorem bounded_queue_fifo {T ι : Type} {maxSize : ℕ} {ls : List (QueueStep T ι)}
    {q : BoundedBlockingQueue T ι} (hrun : (boundedQueue T ι).Run (.new maxSize) ls q) :
    q.takes ++ q.queue = q.puts ∧ q.queue.length ≤ maxSize ∧
    (∀ l, (boundedQueue T ι).enabled q l → ∃ u, (boundedQueue T ι).exec q l = .ok u) ∧
    (q.notEmpty.waiting ≠ [] → q.queue.length ≤ q.notEmpty.woken.length) ∧
    (q.notFull.waiting ≠ [] → maxSize - q.queue.length ≤ q.notFull.woken.length) := by
  have h : BoundedBlockingQueue.Inv maxSize q :=
    BoundedBlockingQueue.Inv.step.run (BoundedBlockingQueue.Inv.new maxSize) hrun
  refine ⟨h.fifo, h.size, fun l he => ?_, h.consumers, h.producers⟩
  obtain ⟨u, hu, -⟩ := BoundedBlockingQueue.Inv.step h he
  exact ⟨u, hu⟩

/-- A queue of one place : a consumer waits, a value is put for it, and another consumer gets the
lock first. A second producer finds the queue full and then free. -/
theorem bounded_queue_fifo_one_place : ∃ q,
    (boundedQueue ℕ (Fin 4)).Run (.new 1)
      [.take 0 0, .put 1 10 0, .put 3 20 0, .take 2 0, .resumeTake 0 0, .resumePut 0 0,
        .resumeTake 0 0] q ∧
    q.takes = [10, 20] ∧ q.takes ++ q.queue = q.puts := by
  have hrun : (boundedQueue ℕ (Fin 4)).Run (.new 1)
      [.take 0 0, .put 1 10 0, .put 3 20 0, .take 2 0, .resumeTake 0 0, .resumePut 0 0,
        .resumeTake 0 0] _ := .of_play rfl
  exact ⟨_, hrun, rfl, (bounded_queue_fifo hrun).1⟩

end Tmuduo
