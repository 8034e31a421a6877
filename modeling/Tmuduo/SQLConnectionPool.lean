import Mathlib.Data.List.Perm.Basic
import Tmuduo.CondVar
import Tmuduo.Machine

/-!
# The pool of database connections

`BlockingQueue T ω` is `tmuduo::BlockingQueue<T>` with the calls `ω` that may wait in `take`. A step
is what a call does between taking the lock and giving it up.

`SQLConnectionPool C ι` is `tmuduo::net::SQLConnectionPool` in the hands of the threads `ι`, with
the connections `C` that `new` returned. A `ConnPoolWrapper` takes a connection where it is made and
puts it back where it is destroyed; a thread may have several. `destroy` takes connections like the
other calls, one after the other, and deletes them.

`connection_pool_exclusive` is the statement for every run : a connection is in the queue, in one
wrapper or deleted, and in one of these only, and no thread waits while a connection is left over.
-/

set_option autoImplicit false

namespace Tmuduo

/-! ## The blocking queue -/

/-- `tmuduo::BlockingQueue`. -/
structure BlockingQueue (T ω : Type) where
  queue : List T
  notEmpty : CondVar ω

namespace BlockingQueue

variable {T ω : Type}

variable (q : BlockingQueue T ω)

/-- Either `put`. `notify_one` wakes the `i`-th call that waits. -/
def put (x : T) (i : ℕ) : BlockingQueue T ω :=
  ⟨q.queue ++ [x], q.notEmpty.notifyOne i⟩

/-- `take`, from a test of its loop on : the value it returns, or none if it waits. -/
def take (w : ω) : Option T × BlockingQueue T ω :=
  match q.queue with
  | [] => (none, { q with notEmpty := q.notEmpty.wait w })
  | front :: rest => (some front, { q with queue := rest })

def size : ℕ := q.queue.length

/-- The `k`-th call that was woken gets the lock back. -/
def resume (k : ℕ) : BlockingQueue T ω := { q with notEmpty := q.notEmpty.resume k }

/-- If a call is left waiting, a call is on its way for every value. -/
def Served : Prop := q.notEmpty.Covers q.queue.length

variable {q}

theorem Served.put (h : q.Served) (x : T) {i : ℕ} (hi : q.notEmpty.CanNotify i) :
    (q.put x i).Served := by
  rw [Served, BlockingQueue.put, List.length_append]
  exact h.notifyOne hi

/-- A `take` that has the lock. Only the values that are left after it need to be covered : it may
have been woken for one itself. -/
theorem served_take (h : q.notEmpty.Covers (q.queue.length - 1)) (w : ω) :
    (q.take w).2.Served ∧ ((q.take w).1.toList ++ (q.take w).2.queue = q.queue) := by
  unfold take
  split
  · next hqueue => exact ⟨by rw [Served, hqueue]; exact CondVar.covers_zero _, rfl⟩
  · next front rest hqueue =>
    rw [hqueue] at h
    exact ⟨h, hqueue.symm⟩

theorem Served.take (h : q.Served) (w : ω) :
    (q.take w).2.Served ∧ ((q.take w).1.toList ++ (q.take w).2.queue = q.queue) :=
  served_take (h.mono (Nat.sub_le _ _)) w

theorem Served.resume_take (h : q.Served) {k : ℕ} (hk : k < q.notEmpty.woken.length) (w : ω) :
    ((q.resume k).take w).2.Served ∧
      (((q.resume k).take w).1.toList ++ ((q.resume k).take w).2.queue = q.queue) := by
  refine @served_take _ _ (q.resume k) ?_ w
  rcases Nat.eq_zero_or_pos q.queue.length with hzero | hpos
  · have hnone : (q.resume k).queue.length - 1 = 0 := by
      simp only [BlockingQueue.resume]
      omega
    rw [hnone]
    exact CondVar.covers_zero _
  · have hone : q.queue.length = q.queue.length - 1 + 1 := by omega
    rw [Served, hone] at h
    exact h.resume hk

theorem Served.wake (h : q.Served) (k : ℕ) :
    ({ q with notEmpty := q.notEmpty.wake k } : BlockingQueue T ω).Served :=
  CondVar.Covers.wake h k

end BlockingQueue

/-! ## The pool -/

/-- Where `destroy` stands : before its call, at the test of its loop, before the call of `take`, in
it, or behind the end. -/
inductive DestroyPc
  | notCalled
  | testing
  | taking
  | waiting
  | returned
  deriving DecidableEq, Repr

/-- `tmuduo::net::SQLConnectionPool` and its wrappers. `none` is the call of `take` in `destroy`. -/
structure SQLConnectionPool (C ι : Type) where
  establishedNum : ℕ
  maxNum : ℕ
  connections : BlockingQueue C (Option ι)
  wrappers : List (ι × C)
  deleted : List C
  destroyPc : DestroyPc

namespace SQLConnectionPool

variable {C ι : Type}

/-- `init`, with the connections that `new` returns in turn. One that does not connect is given
up. -/
def init (connect : C → Bool) (conns : List C) : SQLConnectionPool C ι where
  establishedNum := (conns.filter connect).length
  maxNum := conns.length
  connections := ⟨conns.filter connect, .new⟩
  wrappers := []
  deleted := []
  destroyPc := .notCalled

variable (s : SQLConnectionPool C ι)

/-- What a call of `take` does with the connection it got, or that it waits. -/
def took (w : Option ι) (r : Option C × BlockingQueue C (Option ι)) : SQLConnectionPool C ι :=
  let s := { s with connections := r.2 }
  match w, r.1 with
  | some t, some conn => { s with wrappers := s.wrappers ++ [(t, conn)] }
  | some _, none => s
  | none, some conn => { s with deleted := s.deleted ++ [conn], destroyPc := .testing }
  | none, none => { s with destroyPc := .waiting }

/-- `ConnPoolWrapper::ConnPoolWrapper`, in the thread `t`. -/
def takeConnection (t : ι) : SQLConnectionPool C ι := s.took (some t) (s.connections.take (some t))

/-- `ConnPoolWrapper::~ConnPoolWrapper`, of the `k`-th wrapper. -/
def putConnection (k i : ℕ) : SQLConnectionPool C ι :=
  match s.wrappers[k]? with
  | none => s
  | some (_, conn) =>
    { s with connections := s.connections.put conn i, wrappers := s.wrappers.eraseIdx k }

/-- The next step of `destroy`. -/
def destroy : SQLConnectionPool C ι :=
  match s.destroyPc with
  | .notCalled =>
    if s.connections.size > 0 then { s with destroyPc := .testing }
    else { s with destroyPc := .returned }
  | .testing =>
    if s.connections.size ≠ 0 then { s with destroyPc := .taking }
    else { s with destroyPc := .returned, establishedNum := 0 }
  | .taking => s.took none (s.connections.take none)
  | .waiting | .returned => s

/-- The call that was woken goes on. -/
def resumeTake (k : ℕ) : SQLConnectionPool C ι :=
  match s.connections.notEmpty.woken[k]? with
  | none => s
  | some w => s.took w ((s.connections.resume k).take w)

end SQLConnectionPool

/-- The steps of the threads. -/
inductive ConnPoolStep (ι : Type)
  | takeConnection (t : ι)
  | putConnection (k i : ℕ)
  | destroy
  | resumeTake (k : ℕ)
  | wake (k : ℕ)
  deriving DecidableEq, Repr

/-- The pool under any number of threads. One that waits for a connection makes no other call. -/
def connPool (C ι : Type) : Machine (SQLConnectionPool C ι) (ConnPoolStep ι) Empty where
  enabled s
    | .takeConnection t =>
      some t ∉ s.connections.notEmpty.waiting ∧ some t ∉ s.connections.notEmpty.woken
    | .putConnection k i => k < s.wrappers.length ∧ s.connections.notEmpty.CanNotify i
    | .destroy => s.destroyPc ≠ .waiting ∧ s.destroyPc ≠ .returned
    | .resumeTake k => k < s.connections.notEmpty.woken.length
    | .wake k => k < s.connections.notEmpty.waiting.length
  exec s
    | .takeConnection t => .ok (s.takeConnection t)
    | .putConnection k i => .ok (s.putConnection k i)
    | .destroy => .ok s.destroy
    | .resumeTake k => .ok (s.resumeTake k)
    | .wake k => .ok { s with connections :=
        { s.connections with notEmpty := s.connections.notEmpty.wake k } }

instance {C ι : Type} [DecidableEq ι] (s : SQLConnectionPool C ι) :
    ∀ l, Decidable ((connPool C ι).enabled s l)
  | .takeConnection t => inferInstanceAs (Decidable (some t ∉ s.connections.notEmpty.waiting ∧
      some t ∉ s.connections.notEmpty.woken))
  | .putConnection k i => inferInstanceAs (Decidable (k < s.wrappers.length ∧
      s.connections.notEmpty.CanNotify i))
  | .destroy => inferInstanceAs (Decidable (s.destroyPc ≠ .waiting ∧ s.destroyPc ≠ .returned))
  | .resumeTake k => inferInstanceAs (Decidable (k < s.connections.notEmpty.woken.length))
  | .wake k => inferInstanceAs (Decidable (k < s.connections.notEmpty.waiting.length))

namespace SQLConnectionPool

variable {C ι : Type} {s : SQLConnectionPool C ι}

/-- The connections of the queue, of the wrappers, and those deleted. -/
def all (s : SQLConnectionPool C ι) : List C :=
  s.connections.queue ++ (s.wrappers.map Prod.snd ++ s.deleted)

/-- What every step keeps : the connections there are, and that no wakeup is lost. -/
structure Inv (established : List C) (s : SQLConnectionPool C ι) : Prop where
  all : s.all.Perm established
  served : s.connections.Served

theorem Inv.took {established : List C} (h : s.Inv established) (w : Option ι)
    {r : Option C × BlockingQueue C (Option ι)} (hserved : r.2.Served)
    (hqueue : r.1.toList ++ r.2.queue = s.connections.queue) : (s.took w r).Inv established := by
  obtain ⟨conn, q⟩ := r
  have hall := h.all
  rw [SQLConnectionPool.all, ← hqueue] at hall
  refine ⟨List.Perm.trans ?_ hall, by cases w <;> cases conn <;> exact hserved⟩
  classical
  refine List.perm_iff_count.mpr fun c => ?_
  cases w <;> cases conn <;>
    simp only [SQLConnectionPool.all, SQLConnectionPool.took, List.map_append, List.map_singleton,
      Option.toList_some, Option.toList_none, List.count_append, List.count_nil] <;> omega

theorem Inv.putConnection {established : List C} (h : s.Inv established) {k i : ℕ}
    (hi : s.connections.notEmpty.CanNotify i) : (s.putConnection k i).Inv established := by
  unfold SQLConnectionPool.putConnection
  split
  · exact h
  · next t conn hk =>
    refine ⟨List.Perm.trans ?_ h.all, h.served.put conn hi⟩
    have hperm : ((t, conn) :: s.wrappers.eraseIdx k).Perm s.wrappers := by
      obtain ⟨hlt, hget⟩ := List.getElem?_eq_some_iff.mp hk
      rw [← hget]
      exact List.getElem_cons_eraseIdx_perm hlt
    have hmap : (conn :: (s.wrappers.eraseIdx k).map Prod.snd).Perm (s.wrappers.map Prod.snd) :=
      hperm.map Prod.snd
    classical
    refine List.perm_iff_count.mpr fun c => ?_
    have hcount := List.perm_iff_count.mp hmap c
    rw [← List.singleton_append, List.count_append] at hcount
    simp only [SQLConnectionPool.all, BlockingQueue.put, List.count_append]
    omega

theorem Inv.destroy {established : List C} (h : s.Inv established) : s.destroy.Inv established := by
  unfold SQLConnectionPool.destroy
  split
  · split_ifs <;> exact ⟨h.all, h.served⟩
  · split_ifs <;> exact ⟨h.all, h.served⟩
  · obtain ⟨hserved, hqueue⟩ := h.served.take none
    exact h.took none hserved hqueue
  · exact h
  · exact h

theorem Inv.step {established : List C} : (connPool C ι).Keeps (Inv established) := by
  intro s l h he
  cases l with
  | takeConnection t =>
    obtain ⟨hserved, hqueue⟩ := h.served.take (some t)
    exact ⟨_, rfl, h.took (some t) hserved hqueue⟩
  | putConnection k i => exact ⟨_, rfl, h.putConnection he.2⟩
  | destroy => exact ⟨_, rfl, h.destroy⟩
  | resumeTake k =>
    refine ⟨_, rfl, ?_⟩
    unfold SQLConnectionPool.resumeTake
    split
    · exact h
    · next w hk =>
      obtain ⟨hserved, hqueue⟩ := h.served.resume_take he w
      exact h.took w hserved hqueue
  | wake k => exact ⟨_, rfl, h.all, h.served.wake k⟩

end SQLConnectionPool

/-! ## Every run -/

/-- With any number of threads, wrappers and spurious wakeups, also while `destroy` runs : every
connection that was established is in the queue, in one wrapper or deleted, and no connection is in
two of these places. So no two wrappers share a connection, and `destroy` deletes none that is in
use, and none twice. A call is left waiting only if a call is on its way for every connection in the
queue. If none is on its way, all that are left are in wrappers. -/
theorem connection_pool_exclusive {C ι : Type} {connect : C → Bool} {conns : List C}
    (hnew : conns.Nodup) {ls : List (ConnPoolStep ι)} {s : SQLConnectionPool C ι}
    (hrun : (connPool C ι).Run (.init connect conns) ls s) :
    (s.connections.queue ++ (s.wrappers.map Prod.snd ++ s.deleted)).Perm (conns.filter connect) ∧
    (s.connections.queue ++ (s.wrappers.map Prod.snd ++ s.deleted)).Nodup ∧
    (s.connections.notEmpty.waiting ≠ [] →
      s.connections.queue.length ≤ s.connections.notEmpty.woken.length) ∧
    (s.connections.notEmpty.waiting ≠ [] → s.connections.notEmpty.woken = [] →
      (s.wrappers.map Prod.snd ++ s.deleted).Perm (conns.filter connect)) := by
  have hinit : (SQLConnectionPool.init connect conns : SQLConnectionPool C ι).Inv
      (conns.filter connect) := by
    refine ⟨?_, CondVar.covers_new _⟩
    simp [SQLConnectionPool.all, SQLConnectionPool.init]
  have h := SQLConnectionPool.Inv.step.run hinit hrun
  refine ⟨h.all, h.all.nodup_iff.mpr (hnew.filter _), h.served, fun hwaiting hwoken => ?_⟩
  have hserved := h.served hwaiting
  have hall := h.all
  rw [hwoken, List.length_nil, Nat.le_zero, List.length_eq_zero_iff] at hserved
  rwa [SQLConnectionPool.all, hserved, List.nil_append] at hall

/-- Two of three connections are established. A third wrapper waits until one of them is put back,
and `destroy` deletes the other. -/
theorem connection_pool_exclusive_three_wrappers : ∃ s,
    (connPool ℕ (Fin 3)).Run (.init (· ≠ 1) [0, 1, 2])
      [.takeConnection 0, .takeConnection 1, .takeConnection 2, .putConnection 0 0, .resumeTake 0,
        .putConnection 0 0, .destroy, .destroy, .destroy] s ∧
    s.wrappers = [(2, 0)] ∧ s.deleted = [2] ∧
    (s.connections.queue ++ (s.wrappers.map Prod.snd ++ s.deleted)).Nodup := by
  have hrun : (connPool ℕ (Fin 3)).Run (.init (· ≠ 1) [0, 1, 2])
      [.takeConnection 0, .takeConnection 1, .takeConnection 2, .putConnection 0 0, .resumeTake 0,
        .putConnection 0 0, .destroy, .destroy, .destroy] _ := .of_play rfl
  exact ⟨_, hrun, rfl, rfl, (connection_pool_exclusive (by decide) hrun).2.1⟩

end Tmuduo
