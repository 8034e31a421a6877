import Mathlib.Data.List.Perm.Basic
import Mathlib.Data.List.Perm.Subperm
import Tmuduo.Machine

/-!
# The thread pool

`ThreadPool T` is `tmuduo::ThreadPool` with its workers, any number of threads that call
`pushTask`, and the thread that owns it. A step is one access to what the threads share : the two
halves of `pushTask`, a test of a flag, the locked part of `popTask`, the end of a task, the
decrement of `tasksTotal_`. The owner may call `waitForTasks`, `reset` and the destructor. A task
is the environment's choice, and may push further tasks.

The ghost fields record the tasks whose `pushTask` has begun, those that were queued, started and
done, and those that the owner waits for. `thread_pool_accounts` says for every run that tasks
start in the order in which they were queued, that each runs once, and that `tasksTotal_` counts
the tasks that are not done. `wait_for_tasks_done` is what the owner may rely on.
-/

set_option autoImplicit false

namespace Tmuduo

/-- Where a worker stands in `worker()`. -/
inductive WorkerPc (T : Type)
  | loopTest
  | pausedTest
  | popTask
  | running (task : T)
  | finished (task : T)
  | exited
  deriving DecidableEq, Repr

namespace WorkerPc

variable {T : Type}

/-- The task that runs. -/
def task? : WorkerPc T → Option T
  | running task => some task
  | _ => none

/-- The task that was popped, until it is no longer counted. -/
def counted? : WorkerPc T → Option T
  | running task => some task
  | finished task => some task
  | _ => none

end WorkerPc

/-- The calls of the owner. -/
inductive OwnerCall
  | waitForTasks
  | reset (threadNum : ℕ)
  | destructor
  deriving DecidableEq, Repr

/-- Who calls `waitForTasks`. A `reset` has the new number of threads and the old `paused_`. -/
inductive WaitCaller
  | user
  | reset (threadNum : ℕ) (wasPaused : Bool)
  | destructor
  deriving DecidableEq, Repr

/-- Where the owner stands. `operands` is inside `getTasksRunning()`, with what it has read. The
flag of the later places is what the last test of `paused_` found. -/
inductive OwnerPc
  | outside
  | pausedTest (caller : WaitCaller)
  | totalTest (caller : WaitCaller)
  | operands (caller : WaitCaller) (total queued : Option ℕ)
  | waited (caller : WaitCaller) (paused : Bool)
  | joining (caller : WaitCaller) (paused : Bool)
  | destroyed (paused : Bool)
  deriving DecidableEq, Repr

namespace OwnerPc

/-- The destructor has been called. -/
def inDestructor : OwnerPc → Bool
  | outside => false
  | pausedTest caller => caller = .destructor
  | totalTest caller => caller = .destructor
  | operands caller _ _ => caller = .destructor
  | waited caller _ => caller = .destructor
  | joining caller _ => caller = .destructor
  | destroyed _ => true

/-- The destructor has found `tasksTotal_` to be zero. -/
def sawZero : OwnerPc → Bool
  | waited caller paused => caller = .destructor && !paused
  | joining caller paused => caller = .destructor && !paused
  | destroyed paused => !paused
  | _ => false

end OwnerPc

/-- `tmuduo::ThreadPool`. `pushing` are the calls of `pushTask` between the increment of
`tasksTotal_` and the push. -/
structure ThreadPool (T : Type) where
  paused : Bool
  running : Bool
  tasks : List T
  tasksTotal : ℕ
  threads : List (WorkerPc T)
  pushing : List T
  owner : OwnerPc
  begun : List T
  queued : List T
  started : List T
  done : List T
  awaited : List T
  deriving DecidableEq, Repr

namespace ThreadPool

variable {T : Type}

/-- `ThreadPool::ThreadPool`. -/
def new (threadNum : ℕ) : ThreadPool T where
  paused := false
  running := true
  tasks := []
  tasksTotal := 0
  threads := List.replicate threadNum .loopTest
  pushing := []
  owner := .outside
  begun := []
  queued := []
  started := []
  done := []
  awaited := []

variable (s : ThreadPool T)

/-- `tasksTotal_++` of `pushTask`. -/
def pushBegin (task : T) : ThreadPool T :=
  { s with
    tasksTotal := s.tasksTotal + 1
    pushing := s.pushing ++ [task]
    begun := s.begun ++ [task] }

/-- The locked part of the `i`-th call of `pushTask` that is under way. -/
def pushEnd (i : ℕ) : ThreadPool T :=
  { s with
    tasks := s.tasks ++ s.pushing[i]?.toList
    queued := s.queued ++ s.pushing[i]?.toList
    pushing := s.pushing.eraseIdx i }

def setThread (k : ℕ) (pc : WorkerPc T) : ThreadPool T :=
  { s with threads := s.threads.set k pc }

/-- `popTask`, by the worker `k`. -/
def popTask (k : ℕ) : ThreadPool T :=
  match s.tasks with
  | [] => s.setThread k .loopTest
  | task :: rest =>
    { s.setThread k (.running task) with tasks := rest, started := s.started ++ [task] }

/-- The next step of the worker `k`. -/
def worker (k : ℕ) : WorkerPc T → ThreadPool T
  | .loopTest => s.setThread k (if s.running then .pausedTest else .exited)
  | .pausedTest => s.setThread k (if s.paused then .loopTest else .popTask)
  | .popTask => s.popTask k
  | .running task => { s.setThread k (.finished task) with done := s.done ++ [task] }
  | .finished _ => { s.setThread k .loopTest with tasksTotal := s.tasksTotal - 1 }
  | .exited => s

/-- `getTasksRunning() == 0`, when both operands have been read : the unsigned difference is
zero. -/
def noneRunning (caller : WaitCaller) (total queued : ℕ) : OwnerPc :=
  if total = queued then .waited caller true else .pausedTest caller

/-- The next step of the owner. `totalFirst` : of the two operands in `getTasksRunning()` that have
not been read, `tasksTotal_` is next. -/
def ownerStep (totalFirst : Bool) : ThreadPool T :=
  match s.owner with
  | .outside | .joining .user _ | .destroyed _ => s
  | .pausedTest caller =>
    { s with owner := if s.paused then .operands caller none none else .totalTest caller }
  | .totalTest caller =>
    { s with owner := if s.tasksTotal = 0 then .waited caller false else .pausedTest caller }
  | .operands caller none none =>
    { s with owner :=
        if totalFirst then .operands caller (some s.tasksTotal) none
        else .operands caller none (some s.tasks.length) }
  | .operands caller (some total) _ =>
    { s with owner := noneRunning caller total s.tasks.length }
  | .operands caller none (some queued) =>
    { s with owner := noneRunning caller s.tasksTotal queued }
  | .waited .user _ => { s with owner := .outside }
  | .waited caller paused => { s with running := false, owner := .joining caller paused }
  | .joining (.reset threadNum wasPaused) _ =>
    { s with
      paused := wasPaused
      running := true
      threads := List.replicate threadNum .loopTest
      owner := .outside }
  | .joining .destructor paused => { s with owner := .destroyed paused }

/-- The destructor has not been called, or a task runs. -/
def Usable : Prop := s.owner.inDestructor = false ∨ s.threads.filterMap WorkerPc.task? ≠ []

/-- All the threads have returned from `worker()`, if the owner joins them. -/
def Joined : Prop :=
  match s.owner with
  | .joining _ _ => ∀ pc ∈ s.threads, pc = .exited
  | _ => True

/-- The caller that a call makes of the owner. A `reset` to no threads takes the number of the
hardware. -/
def caller (hardware : ℕ) : OwnerCall → WaitCaller
  | .waitForTasks => .user
  | .reset threadNum => .reset (if threadNum = 0 then hardware else threadNum) s.paused
  | .destructor => .destructor

/-- `waitForTasks`, alone or as the first part of `reset` or the destructor. -/
def waitForTasks (caller : WaitCaller) : ThreadPool T :=
  { s with owner := .pausedTest caller, awaited := s.begun }

end ThreadPool

/-- The steps of the threads. -/
inductive PoolStep (T : Type)
  | pushBegin (task : T)
  | pushEnd (i : ℕ)
  | setPaused (paused : Bool)
  | worker (k : ℕ)
  | call (c : OwnerCall)
  | owner (totalFirst : Bool)
  deriving DecidableEq, Repr

/-- The pool in any interleaving of its threads, on a machine with `hardware` cores. After the
destructor was called only the tasks that still run use the pool. -/
def threadPool (T : Type) (hardware : ℕ) : Machine (ThreadPool T) (PoolStep T) Empty where
  enabled s
    | .pushBegin _ => s.Usable
    | .pushEnd i => i < s.pushing.length
    | .setPaused _ => s.Usable
    | .worker k => k < s.threads.length
    | .call _ => s.owner = .outside
    | .owner _ => s.Joined
  exec s
    | .pushBegin task => .ok (s.pushBegin task)
    | .pushEnd i => .ok (s.pushEnd i)
    | .setPaused paused => .ok { s with paused := paused }
    | .worker k =>
        match s.threads[k]? with
        | some pc => .ok (s.worker k pc)
        | none => .ok s
    | .call c => .ok (s.waitForTasks (s.caller hardware c))
    | .owner totalFirst => .ok (s.ownerStep totalFirst)

instance {T : Type} [DecidableEq T] (s : ThreadPool T) : Decidable s.Usable :=
  inferInstanceAs (Decidable (_ ∨ _))

instance {T : Type} [DecidableEq T] (s : ThreadPool T) : Decidable s.Joined :=
  match h : s.owner with
  | .joining _ _ =>
    decidable_of_iff (∀ pc ∈ s.threads, pc = .exited) (by simp [ThreadPool.Joined, h])
  | .outside | .pausedTest _ | .totalTest _ | .operands _ _ _ | .waited _ _ | .destroyed _ =>
    isTrue (by simp [ThreadPool.Joined, h])

instance {T : Type} [DecidableEq T] {hardware : ℕ} (s : ThreadPool T) :
    ∀ l, Decidable ((threadPool T hardware).enabled s l)
  | .pushBegin _ => inferInstanceAs (Decidable s.Usable)
  | .pushEnd i => inferInstanceAs (Decidable (i < s.pushing.length))
  | .setPaused _ => inferInstanceAs (Decidable s.Usable)
  | .worker k => inferInstanceAs (Decidable (k < s.threads.length))
  | .call _ => inferInstanceAs (Decidable (s.owner = .outside))
  | .owner _ => inferInstanceAs (Decidable s.Joined)

/-! ## Lists of threads -/

/-- What the threads hold, with that of one thread in front. -/
theorem filterMap_perm_of_getElem? {α β : Type} {l : List α} {k : ℕ} {a : α} (f : α → Option β)
    (h : l[k]? = some a) :
    (l.filterMap f).Perm ((f a).toList ++ (l.eraseIdx k).filterMap f) := by
  obtain ⟨hk, rfl⟩ := List.getElem?_eq_some_iff.mp h
  have hperm := (List.getElem_cons_eraseIdx_perm hk).symm.filterMap f
  rw [List.filterMap_cons] at hperm
  cases hf : f l[k] with
  | none => simpa [hf] using hperm
  | some b => simpa [hf] using hperm

theorem filterMap_set_perm {α β : Type} {l : List α} {k : ℕ} {a : α} (f : α → Option β)
    (h : l[k]? = some a) (b : α) :
    ((l.set k b).filterMap f).Perm ((f b).toList ++ (l.eraseIdx k).filterMap f) := by
  obtain ⟨hk, -⟩ := List.getElem?_eq_some_iff.mp h
  have hperm := (List.set_perm_cons_eraseIdx hk b).filterMap f
  rw [List.filterMap_cons] at hperm
  cases hf : f b with
  | none => simpa [hf] using hperm
  | some b => simpa [hf] using hperm

/-- A thread that goes on with the same in its hands. -/
theorem filterMap_set_perm_of_eq {α β : Type} {l : List α} {k : ℕ} {a b : α} {f : α → Option β}
    (h : l[k]? = some a) (hf : f b = f a) : ((l.set k b).filterMap f).Perm (l.filterMap f) := by
  refine (filterMap_set_perm f h b).trans ?_
  rw [hf]
  exact (filterMap_perm_of_getElem? f h).symm

namespace ThreadPool

variable {T : Type} {s u : ThreadPool T}

/-! ## The accounts of the tasks -/

/-- The tasks that run. -/
def current (s : ThreadPool T) : List T := s.threads.filterMap WorkerPc.task?

/-- The tasks that were popped and are still counted. -/
def counted (s : ThreadPool T) : List T := s.threads.filterMap WorkerPc.counted?

/-- What every step keeps. -/
structure Inv (s : ThreadPool T) : Prop where
  fifo : s.started ++ s.tasks = s.queued
  begun : s.begun.Perm (s.queued ++ s.pushing)
  runs : s.started.Perm (s.done ++ s.current)
  total : s.tasksTotal = s.pushing.length + s.tasks.length + s.counted.length

theorem filterMap_replicate_loopTest (f : WorkerPc T → Option T) (hf : f .loopTest = none) (n : ℕ) :
    (List.replicate n .loopTest).filterMap f = [] := by
  rw [List.filterMap_eq_nil_iff]
  intro pc hpc
  rw [List.eq_of_mem_replicate hpc, hf]

theorem Inv.new (threadNum : ℕ) : Inv (ThreadPool.new threadNum : ThreadPool T) where
  fifo := rfl
  begun := List.Perm.refl _
  runs := by
    rw [current, ThreadPool.new, filterMap_replicate_loopTest _ rfl, List.append_nil]
  total := by
    rw [counted, ThreadPool.new, filterMap_replicate_loopTest _ rfl]
    rfl

/-- A worker that goes on with the same task, or without one. -/
theorem Inv.setThread (h : s.Inv) {k : ℕ} {pc pc' : WorkerPc T} (hk : s.threads[k]? = some pc)
    (htask : pc'.task? = pc.task?) (hcounted : pc'.counted? = pc.counted?) :
    (s.setThread k pc').Inv where
  fifo := h.fifo
  begun := h.begun
  runs := h.runs.trans ((filterMap_set_perm_of_eq hk htask).symm.append_left _)
  total := by
    have hlength := (filterMap_set_perm_of_eq hk hcounted).length_eq
    simp only [ThreadPool.setThread, counted, hlength]
    exact h.total

theorem Inv.popTask (h : s.Inv) {k : ℕ} (hk : s.threads[k]? = some .popTask) :
    (s.popTask k).Inv := by
  unfold ThreadPool.popTask
  split
  · exact h.setThread hk rfl rfl
  · next task rest htasks =>
    have hcurrent := filterMap_perm_of_getElem? WorkerPc.task? hk
    have hcurrent' := filterMap_set_perm WorkerPc.task? hk (.running task)
    have hcounted := (filterMap_perm_of_getElem? WorkerPc.counted? hk).length_eq
    have hcounted' := (filterMap_set_perm WorkerPc.counted? hk (.running task)).length_eq
    have htotal := h.total
    have hfifo := h.fifo
    rw [htasks] at htotal hfifo
    refine ⟨?_, h.begun, ?_, ?_⟩
    · simp only [List.append_assoc, List.singleton_append]
      exact hfifo
    · -- the task moves from the queue to the worker
      have hruns : (s.started ++ [task]).Perm (s.done ++ s.current ++ [task]) :=
        h.runs.append_right [task]
      refine hruns.trans ?_
      rw [List.append_assoc]
      refine List.Perm.append_left _ (List.perm_append_comm.trans ?_)
      exact (hcurrent.append_left [task]).trans hcurrent'.symm
    · simp only [counted, hcounted, List.length_append, List.length_cons, WorkerPc.counted?,
        Option.toList_none, List.length_nil] at htotal
      simp only [ThreadPool.setThread, counted, hcounted', List.length_append, WorkerPc.counted?,
        Option.toList_some, List.length_singleton]
      omega

/-- The next step of a worker. -/
theorem Inv.worker (h : s.Inv) {k : ℕ} {pc : WorkerPc T} (hk : s.threads[k]? = some pc) :
    (s.worker k pc).Inv := by
  cases pc with
  | loopTest =>
    unfold ThreadPool.worker
    split_ifs <;> exact h.setThread hk rfl rfl
  | pausedTest =>
    unfold ThreadPool.worker
    split_ifs <;> exact h.setThread hk rfl rfl
  | popTask => exact h.popTask hk
  | running task =>
    have hcurrent := filterMap_perm_of_getElem? WorkerPc.task? hk
    have hcurrent' := filterMap_set_perm WorkerPc.task? hk (.finished task)
    have hset : (s.threads.set k (.finished task)).filterMap WorkerPc.counted? |>.Perm s.counted :=
      filterMap_set_perm_of_eq hk rfl
    refine ⟨h.fifo, h.begun, h.runs.trans ?_, ?_⟩
    · -- the task is done
      refine (hcurrent.append_left _).trans ?_
      simp only [ThreadPool.worker, ThreadPool.setThread, current, List.append_assoc]
      exact (hcurrent'.symm.append_left [task]).append_left _
    · simp only [ThreadPool.worker, ThreadPool.setThread, counted, hset.length_eq]
      exact h.total
  | finished task =>
    have hcounted := (filterMap_perm_of_getElem? WorkerPc.counted? hk).length_eq
    have hcounted' := (filterMap_set_perm WorkerPc.counted? hk .loopTest).length_eq
    have htotal := h.total
    have hset : (s.threads.set k .loopTest).filterMap WorkerPc.task? |>.Perm s.current :=
      filterMap_set_perm_of_eq hk rfl
    refine ⟨h.fifo, h.begun, h.runs.trans (hset.symm.append_left _), ?_⟩
    simp only [counted, hcounted, List.length_append, WorkerPc.counted?, Option.toList_some,
      List.length_singleton] at htotal
    simp only [ThreadPool.worker, ThreadPool.setThread, counted, hcounted', List.length_append,
      WorkerPc.counted?, Option.toList_none, List.length_nil]
    omega
  | exited => exact h

/-- The owner moves on and may clear `running_`, or it ends a `reset`. -/
theorem ownerStep_cases (s : ThreadPool T) (totalFirst : Bool) :
    (∃ owner running, s.ownerStep totalFirst = { s with owner := owner, running := running }) ∨
    ∃ threadNum wasPaused paused, s.owner = .joining (.reset threadNum wasPaused) paused ∧
      s.ownerStep totalFirst = { s with
        paused := wasPaused
        running := true
        threads := List.replicate threadNum .loopTest
        owner := .outside } := by
  unfold ownerStep
  split <;> first | exact .inl ⟨_, _, rfl⟩ | exact .inr ⟨_, _, _, ‹_›, rfl⟩

/-- The owner changes nothing of this, also when it replaces the threads : they have exited. -/
theorem Inv.ownerStep (h : s.Inv) (hjoined : s.Joined) (totalFirst : Bool) :
    (s.ownerStep totalFirst).Inv := by
  obtain ⟨owner, running, heq⟩ | ⟨threadNum, wasPaused, paused, howner, heq⟩ :=
    s.ownerStep_cases totalFirst
  · rw [heq]
    exact ⟨h.fifo, h.begun, h.runs, h.total⟩
  · have hexited : ∀ pc ∈ s.threads, pc = .exited := by simpa [Joined, howner] using hjoined
    have hnone : ∀ f : WorkerPc T → Option T, f .exited = none → s.threads.filterMap f = [] :=
      fun f hf => List.filterMap_eq_nil_iff.mpr fun pc hpc => by rw [hexited pc hpc, hf]
    have hruns := h.runs
    have htotal := h.total
    rw [current, hnone _ rfl] at hruns
    rw [counted, hnone _ rfl] at htotal
    rw [heq]
    refine ⟨h.fifo, h.begun, ?_, ?_⟩
    · rw [current, filterMap_replicate_loopTest _ rfl]
      exact hruns
    · rw [counted, filterMap_replicate_loopTest _ rfl]
      exact htotal

theorem Inv.pushEnd (h : s.Inv) {i : ℕ} (hi : i < s.pushing.length) : (s.pushEnd i).Inv := by
  have htotal := h.total
  have hget : s.pushing[i]?.toList = [s.pushing[i]] := by
    rw [List.getElem?_eq_getElem hi, Option.toList_some]
  refine ⟨?_, ?_, h.runs, ?_⟩
  · simp only [ThreadPool.pushEnd, ← List.append_assoc, h.fifo]
  · refine h.begun.trans ?_
    simp only [ThreadPool.pushEnd, hget, List.append_assoc]
    exact (List.getElem_cons_eraseIdx_perm hi).symm.append_left _
  · have hlength := List.length_eraseIdx_of_lt hi
    have hcounted : (s.pushEnd i).counted = s.counted := rfl
    simp only [hcounted]
    simp only [ThreadPool.pushEnd, hget, List.length_append, List.length_singleton, hlength]
    omega

theorem Inv.step {hardware : ℕ} {l : PoolStep T} (h : s.Inv)
    (he : (threadPool T hardware).enabled s l) (hx : (threadPool T hardware).exec s l = .ok u) :
    u.Inv := by
  cases l with
  | pushBegin task =>
    obtain rfl := Except.ok.inj hx
    have htotal := h.total
    refine ⟨h.fifo, ?_, h.runs, ?_⟩
    · have hbegun := h.begun.append_right [task]
      rwa [List.append_assoc] at hbegun
    · have hcounted : (s.pushBegin task).counted = s.counted := rfl
      simp only [hcounted]
      simp only [ThreadPool.pushBegin, List.length_append, List.length_singleton]
      omega
  | pushEnd i =>
    obtain rfl := Except.ok.inj hx
    exact h.pushEnd he
  | setPaused paused =>
    obtain rfl := Except.ok.inj hx
    exact ⟨h.fifo, h.begun, h.runs, h.total⟩
  | worker k =>
    have hk : s.threads[k]? = some (s.threads.get ⟨k, he⟩) := List.getElem?_eq_getElem he
    simp only [threadPool, hk] at hx
    obtain rfl := Except.ok.inj hx
    exact h.worker hk
  | call c =>
    obtain rfl := Except.ok.inj hx
    exact ⟨h.fifo, h.begun, h.runs, h.total⟩
  | owner totalFirst =>
    obtain rfl := Except.ok.inj hx
    exact h.ownerStep he totalFirst

/-- A task that runs is counted. -/
theorem current_eq_nil (h : s.counted = []) : s.current = [] := by
  rw [counted, List.filterMap_eq_nil_iff] at h
  rw [current, List.filterMap_eq_nil_iff]
  intro pc hpc
  have hnone := h pc hpc
  cases pc <;> first | rfl | cases hnone

/-- No task is left : all that were begun are done. -/
theorem Inv.all_done (h : s.Inv) (hpushing : s.pushing = []) (htasks : s.tasks = [])
    (hcounted : s.counted = []) : s.begun.Perm s.done := by
  have hruns := h.runs
  have hbegun := h.begun
  rw [current_eq_nil hcounted, List.append_nil] at hruns
  rw [hpushing, List.append_nil, ← h.fifo, htasks, List.append_nil] at hbegun
  exact hbegun.trans hruns

/-- `tasksTotal_` is zero only when no task is left. -/
theorem Inv.nothing_left (h : s.Inv) (hzero : s.tasksTotal = 0) :
    s.pushing = [] ∧ s.tasks = [] ∧ s.counted = [] := by
  have htotal := h.total
  refine ⟨?_, ?_, ?_⟩ <;> (rw [← List.length_eq_zero_iff]; omega)

/-! ## The owner -/

/-- What the owner may rely on. -/
structure WaitInv (s : ThreadPool T) : Prop where
  awaited : s.awaited.Subperm s.begun
  waited : ∀ caller, s.owner = .waited caller false → s.awaited.Subperm s.done
  zero : s.owner.sawZero = true → s.pushing = [] ∧ s.tasks = [] ∧ s.counted = []
  exited : ∀ paused, s.owner = .destroyed paused → ∀ pc ∈ s.threads, pc = .exited

theorem WaitInv.new (threadNum : ℕ) : WaitInv (ThreadPool.new threadNum : ThreadPool T) where
  awaited := List.Subperm.refl _
  waited _ h := by simp [ThreadPool.new] at h
  zero h := by simp [ThreadPool.new, OwnerPc.sawZero] at h
  exited _ h := by simp [ThreadPool.new] at h

/-- A worker leaves the owner and the calls of `pushTask` alone, and what is done stays done. -/
theorem worker_frame (s : ThreadPool T) (k : ℕ) (pc : WorkerPc T) :
    (s.worker k pc).owner = s.owner ∧ (s.worker k pc).awaited = s.awaited ∧
      (s.worker k pc).begun = s.begun ∧ (s.worker k pc).pushing = s.pushing ∧
      s.done.Sublist (s.worker k pc).done := by
  cases pc with
  | popTask =>
    simp only [worker, popTask]
    split <;> exact ⟨rfl, rfl, rfl, rfl, List.Sublist.refl _⟩
  | running task => exact ⟨rfl, rfl, rfl, rfl, List.sublist_append_left _ _⟩
  | loopTest => exact ⟨rfl, rfl, rfl, rfl, List.Sublist.refl _⟩
  | pausedTest => exact ⟨rfl, rfl, rfl, rfl, List.Sublist.refl _⟩
  | finished task => exact ⟨rfl, rfl, rfl, rfl, List.Sublist.refl _⟩
  | exited => exact ⟨rfl, rfl, rfl, rfl, List.Sublist.refl _⟩

/-- Without a task in the queue or in its hands, a worker finds none. -/
theorem worker_idle {k : ℕ} {pc : WorkerPc T} (hk : s.threads[k]? = some pc) (htasks : s.tasks = [])
    (hcounted : s.counted = []) : (s.worker k pc).tasks = [] ∧ (s.worker k pc).counted = [] := by
  have hpc : pc.counted? = none :=
    List.filterMap_eq_nil_iff.mp hcounted pc (List.mem_of_getElem? hk)
  have hset : ∀ pc' : WorkerPc T, pc'.counted? = none → (s.setThread k pc').counted = [] := by
    intro pc' hpc'
    have hperm := filterMap_set_perm_of_eq (b := pc') hk (hpc'.trans hpc.symm)
    exact List.Perm.eq_nil (hperm.trans (List.Perm.of_eq hcounted))
  cases pc with
  | loopTest =>
    refine ⟨htasks, hset _ ?_⟩
    split_ifs <;> rfl
  | pausedTest =>
    refine ⟨htasks, hset _ ?_⟩
    split_ifs <;> rfl
  | popTask =>
    simp only [worker, popTask, htasks]
    exact ⟨htasks, hset _ rfl⟩
  | running task => cases hpc
  | finished task => cases hpc
  | exited => exact ⟨htasks, hcounted⟩

theorem WaitInv.worker (h : s.WaitInv) {k : ℕ} {pc : WorkerPc T} (hk : s.threads[k]? = some pc) :
    (s.worker k pc).WaitInv := by
  obtain ⟨howner, hawaited, hbegun, hpushing, hdone⟩ := s.worker_frame k pc
  refine ⟨?_, fun caller hw => ?_, fun hzero => ?_, fun paused hd => ?_⟩
  · rw [hawaited, hbegun]
    exact h.awaited
  · rw [howner] at hw
    rw [hawaited]
    exact (h.waited caller hw).trans hdone.subperm
  · rw [howner] at hzero
    obtain ⟨hnone, htasks, hcounted⟩ := h.zero hzero
    rw [hpushing]
    exact ⟨hnone, worker_idle hk htasks hcounted⟩
  · rw [howner] at hd
    obtain rfl := h.exited paused hd pc (List.mem_of_getElem? hk)
    exact h.exited paused hd

/-- The owner goes to a place where it relies on nothing. -/
theorem WaitInv.goto (h : s.WaitInv) {owner : OwnerPc} (hzero : owner.sawZero = false)
    (hwaited : ∀ caller, owner ≠ .waited caller false)
    (hdestroyed : ∀ paused, owner ≠ .destroyed paused) : WaitInv { s with owner := owner } where
  awaited := h.awaited
  waited caller hw := absurd hw (hwaited caller)
  zero hz := by
    rw [hzero] at hz
    cases hz
  exited paused hd := absurd hd (hdestroyed paused)

theorem WaitInv.noneRunning (h : s.WaitInv) (caller : WaitCaller) (total queued : ℕ) :
    WaitInv { s with owner := ThreadPool.noneRunning caller total queued } := by
  unfold ThreadPool.noneRunning
  split_ifs
  · exact h.goto (by simp [OwnerPc.sawZero]) (by simp) (by simp)
  · exact h.goto rfl (by simp) (by simp)

theorem WaitInv.ownerStep (h : s.WaitInv) (hinv : s.Inv) (hjoined : s.Joined) (totalFirst : Bool) :
    (s.ownerStep totalFirst).WaitInv := by
  unfold ThreadPool.ownerStep
  split
  · exact h
  · exact h
  · exact h
  · split_ifs <;> exact h.goto rfl (by simp) (by simp)
  · split_ifs with hzero
    · -- nothing is left of what was begun
      obtain ⟨hpushing, htasks, hcounted⟩ := hinv.nothing_left hzero
      refine ⟨h.awaited, fun _ _ => ?_, fun _ => ⟨hpushing, htasks, hcounted⟩, by simp⟩
      exact h.awaited.trans (hinv.all_done hpushing htasks hcounted).subperm
    · exact h.goto rfl (by simp) (by simp)
  · split_ifs <;> exact h.goto rfl (by simp) (by simp)
  · exact h.noneRunning _ _ _
  · exact h.noneRunning _ _ _
  · exact h.goto rfl (by simp) (by simp)
  · next caller paused _ howner =>
    refine ⟨h.awaited, by simp, fun hz => h.zero ?_, by simp⟩
    rw [howner]
    exact hz
  · exact ⟨h.awaited, by simp, by simp [OwnerPc.sawZero], by simp⟩
  · next paused howner =>
    refine ⟨h.awaited, by simp, fun hz => h.zero ?_, fun _ _ => ?_⟩
    · rw [howner]
      exact hz
    · simpa [Joined, howner] using hjoined

/-- After the destructor was called and saw zero, no task runs, so none can use the pool. -/
theorem WaitInv.not_usable (h : s.WaitInv) (hzero : s.owner.sawZero = true) : ¬s.Usable := by
  have hdtor : s.owner.inDestructor = true := by
    cases howner : s.owner with
    | destroyed paused => rfl
    | _ => simp_all [OwnerPc.sawZero, OwnerPc.inDestructor]
  rintro (hnot | hruns)
  · rw [hdtor] at hnot
    cases hnot
  · exact hruns (current_eq_nil (h.zero hzero).2.2)

theorem WaitInv.step {hardware : ℕ} {l : PoolStep T} (h : s.WaitInv) (hinv : s.Inv)
    (he : (threadPool T hardware).enabled s l) (hx : (threadPool T hardware).exec s l = .ok u) :
    u.WaitInv := by
  cases l with
  | pushBegin task =>
    obtain rfl := Except.ok.inj hx
    exact ⟨h.awaited.trans (List.sublist_append_left _ _).subperm, h.waited,
      fun hz => absurd he (h.not_usable hz), h.exited⟩
  | pushEnd i =>
    obtain rfl := Except.ok.inj hx
    refine ⟨h.awaited, h.waited, fun hz => ?_, h.exited⟩
    have hi : i < s.pushing.length := he
    rw [(h.zero hz).1] at hi
    exact absurd hi (Nat.not_lt_zero _)
  | setPaused paused =>
    obtain rfl := Except.ok.inj hx
    exact ⟨h.awaited, h.waited, h.zero, h.exited⟩
  | worker k =>
    have hk : s.threads[k]? = some (s.threads.get ⟨k, he⟩) := List.getElem?_eq_getElem he
    simp only [threadPool, hk] at hx
    obtain rfl := Except.ok.inj hx
    exact h.worker hk
  | call c =>
    obtain rfl := Except.ok.inj hx
    exact ⟨List.Subperm.refl _, by simp [ThreadPool.waitForTasks],
      by simp [ThreadPool.waitForTasks, OwnerPc.sawZero], by simp [ThreadPool.waitForTasks]⟩
  | owner totalFirst =>
    obtain rfl := Except.ok.inj hx
    exact h.ownerStep hinv he totalFirst

/-- Both invariants hold all along a run. -/
theorem inv_of_run {hardware threadNum : ℕ} {ls : List (PoolStep T)}
    (hrun : (threadPool T hardware).Run (.new threadNum) ls s) : s.Inv ∧ s.WaitInv := by
  refine @Machine.Run.invariant _ _ _ _ (fun s : ThreadPool T => s.Inv ∧ s.WaitInv) _ _ _ hrun
    ⟨.new threadNum, .new threadNum⟩ ?_
  intro t l u h he hx
  exact ⟨h.1.step he hx, h.2.step h.1 he hx⟩

end ThreadPool

/-! ## Every run -/

/-- With any number of workers and of threads that push tasks, in every state : the tasks started,
in this order, and then the queue are the tasks queued; a task that was started is done or runs in
one worker, each as often as it was started; a task whose `pushTask` has begun is queued or about to
be; and `tasksTotal_` is the number of tasks that are about to be queued, queued, or popped and
not counted down, so that no worker counts it down below zero. -/
theorem thread_pool_accounts {T : Type} {hardware threadNum : ℕ} {ls : List (PoolStep T)}
    {s : ThreadPool T} (hrun : (threadPool T hardware).Run (.new threadNum) ls s) :
    s.started ++ s.tasks = s.queued ∧
    s.started.Perm (s.done ++ s.threads.filterMap WorkerPc.task?) ∧
    s.begun.Perm (s.queued ++ s.pushing) ∧
    s.tasksTotal =
      s.pushing.length + s.tasks.length + (s.threads.filterMap WorkerPc.counted?).length ∧
    ∀ (k : ℕ) (task : T), s.threads[k]? = some (.finished task) → 0 < s.tasksTotal := by
  have h := (ThreadPool.inv_of_run hrun).1
  refine ⟨h.fifo, h.runs, h.begun, h.total, fun k task hk => ?_⟩
  have htotal := h.total
  have hcounted := (filterMap_perm_of_getElem? WorkerPc.counted? hk).length_eq
  simp only [ThreadPool.counted, hcounted, WorkerPc.counted?, Option.toList_some,
    List.length_append, List.length_singleton] at htotal
  omega

/-- Two tasks are pushed, the second while the first call is between its halves, and queued the
other way round. One runs, and one has been counted down. -/
theorem thread_pool_accounts_two_tasks : ∃ s,
    (threadPool ℕ 4).Run (.new 2) [.pushBegin 1, .pushBegin 2, .pushEnd 1, .pushEnd 0, .worker 0,
      .worker 0, .worker 0, .worker 1, .worker 1, .worker 1, .worker 0, .worker 0] s ∧
    s.queued = [2, 1] ∧ s.done = [2] ∧ s.tasksTotal = 1 ∧
    s.started.Perm (s.done ++ s.threads.filterMap WorkerPc.task?) := by
  have hrun : (threadPool ℕ 4).Run (.new 2) [.pushBegin 1, .pushBegin 2, .pushEnd 1, .pushEnd 0,
      .worker 0, .worker 0, .worker 0, .worker 1, .worker 1, .worker 1, .worker 0, .worker 0] _ :=
    .of_play rfl
  exact ⟨_, hrun, rfl, rfl, rfl, (thread_pool_accounts hrun).2.1⟩

/-- When `waitForTasks` returns and its last test found the pool not paused, every task is done
whose `pushTask` had begun before the call. When the destructor returns, all threads have exited
and the tasks that are not done are left in the queue or about to be queued; and if its wait ended
so, there are none of these. -/
theorem wait_for_tasks_done {T : Type} {hardware threadNum : ℕ} {ls : List (PoolStep T)}
    {s : ThreadPool T} (hrun : (threadPool T hardware).Run (.new threadNum) ls s) :
    (∀ caller, s.owner = .waited caller false → s.awaited.Subperm s.done) ∧
    ∀ paused, s.owner = .destroyed paused → (∀ pc ∈ s.threads, pc = .exited) ∧
      s.begun.Perm (s.done ++ (s.tasks ++ s.pushing)) ∧
      (paused = false → s.begun.Perm s.done) := by
  obtain ⟨hinv, h⟩ := ThreadPool.inv_of_run hrun
  refine ⟨h.waited, fun paused hd => ⟨h.exited paused hd, ?_, ?_⟩⟩
  · have hnone : s.threads.filterMap WorkerPc.task? = [] :=
      List.filterMap_eq_nil_iff.mpr fun pc hpc => by rw [h.exited paused hd pc hpc]; rfl
    have hruns := hinv.runs
    have hbegun := hinv.begun
    rw [ThreadPool.current, hnone, List.append_nil] at hruns
    rw [← hinv.fifo, List.append_assoc] at hbegun
    exact hbegun.trans (hruns.append_right _)
  · rintro rfl
    obtain ⟨hpushing, htasks, hcounted⟩ := h.zero (by rw [hd]; rfl)
    exact hinv.all_done hpushing htasks hcounted

/-- The destructor is called while a task runs, which pushes another one. -/
theorem wait_for_tasks_done_nested : ∃ s,
    (threadPool ℕ 4).Run (.new 1) [.pushBegin 1, .pushEnd 0, .worker 0, .worker 0, .worker 0,
      .call .destructor, .pushBegin 2, .pushEnd 0, .worker 0, .worker 0, .owner true,
      .owner true, .worker 0, .worker 0, .worker 0, .worker 0, .worker 0, .owner true, .owner true,
      .owner true, .worker 0, .owner true] s ∧
    s.owner = .destroyed false ∧ s.done = [1, 2] ∧ s.begun.Perm s.done := by
  have hrun : (threadPool ℕ 4).Run (.new 1) [.pushBegin 1, .pushEnd 0, .worker 0, .worker 0,
      .worker 0, .call .destructor, .pushBegin 2, .pushEnd 0, .worker 0, .worker 0,
      .owner true, .owner true, .worker 0, .worker 0, .worker 0, .worker 0, .worker 0, .owner true,
      .owner true, .owner true, .worker 0, .owner true] _ := .of_play rfl
  exact ⟨_, hrun, rfl, rfl, ((wait_for_tasks_done hrun).2 false rfl).2.2 rfl⟩

end Tmuduo
