import Tmuduo.CondVar
import Tmuduo.LoopQuit

/-!
# A thread with an event loop

`EventLoopThread` is `tmuduo::net::EventLoopThread`. The owner starts the thread and waits until it
has published its loop, and its destructor quits the loop and joins the thread. The loop is that of
`loopMachine`, shared with other threads that got its address from `startLoop`.

`quit` is two steps, the flag and the `wakeup` write. The loop is a variable of the thread, so it is
gone when `loop()` has returned, and a step on it is a fault : nothing keeps the owner or the others
from making one. The destructor is called after `startLoop`. `event_loop_thread` says when
`startLoop` returns, that it does not miss its notification, that `join` does not wait for ever, and
which calls may come too late.
-/

set_option autoImplicit false

namespace Tmuduo

/-- Where the thread is in `threadFunc` : in the constructor of the loop and the callback, at the
lock, in `loop()`, or past the end. -/
inductive ThreadPlace
  | unstarted
  | callback
  | publish
  | loop
  | finished
  deriving DecidableEq, Repr

/-- The thread has published its loop. -/
def ThreadPlace.published : ThreadPlace → Bool
  | loop | finished => true
  | _ => false

/-- Where the owner is : before the lock of `startLoop`, in its `wait`, after it, and in the
destructor inside `quit`, in `join` and past it. -/
inductive OwnerPlace
  | idle
  | lock
  | wait
  | started
  | quit
  | join
  | joined
  deriving DecidableEq, Repr

/-- `startLoop` has returned. -/
def OwnerPlace.hasLoop : OwnerPlace → Bool
  | started | quit | join | joined => true
  | _ => false

/-- The owner has quit the loop. -/
def OwnerPlace.quits : OwnerPlace → Bool
  | quit | join | joined => true
  | _ => false

/-- `tmuduo::net::EventLoopThread`. `loop_` : the pointer is set. `initialized` : the callback has
run. The owner is the thread `none` of the loop. -/
structure EventLoopThread (F T : Type*) where
  loop_ : Bool
  exiting : Bool
  initialized : Bool
  thread : ThreadPlace
  owner : OwnerPlace
  cond : CondVar Unit
  loop : EventLoop F (Option T)

/-- A step of the owner, of the thread, or of another thread on the loop. -/
inductive LoopThreadStep (F T : Type*)
  | startLoop
  | lock
  | wake
  | resume
  | runCallback
  | publish (i : ℕ)
  | loop (l : LoopStep F (Option T))
  | leaveLoop
  | quit
  | wakeup
  | join

/-- The thread that a step on the loop is of, if it is not the loop's own. -/
def LoopStep.byThread? {F T : Type*} : LoopStep F T → Option T
  | .queueInLoopBy t _ | .quitBy t | .wakeupBy t => some t
  | _ => none

namespace EventLoopThread

variable {F T : Type*}

/-- `EventLoopThread::EventLoopThread`. -/
def new : EventLoopThread F T where
  loop_ := false
  exiting := false
  initialized := false
  thread := .unstarted
  owner := .idle
  cond := .new
  loop := .enter [] 0 fun _ => false

variable (s : EventLoopThread F T)

def startLoop : EventLoopThread F T :=
  { s with thread := .callback, owner := .lock }

/-- The test of the loop in `startLoop`, with the lock. -/
def testLoop : EventLoopThread F T :=
  if s.loop_ then { s with owner := .started }
  else { s with owner := .wait, cond := s.cond.wait () }

def publish (i : ℕ) : EventLoopThread F T :=
  { s with loop_ := true, cond := s.cond.notifyOne i, thread := .loop }

variable [DecidableEq T]

/-- A step on the loop, if it is there. -/
def onLoop (u : EventLoopThread F T) : Except Unit (EventLoopThread F T) :=
  if s.thread = .finished then .error () else .ok u

/-- `~EventLoopThread` up to the flag of `loop_->quit()`. -/
def quit : Except Unit (EventLoopThread F T) :=
  s.onLoop { s with
    exiting := true
    owner := .quit
    loop := { s.loop with quit := true, waking := Function.update s.loop.waking none true } }

/-- The `wakeup` of `loop_->quit()`. -/
def wakeup : Except Unit (EventLoopThread F T) :=
  s.onLoop { s with
    owner := .join
    loop := { s.loop.wakeup with waking := Function.update s.loop.waking none false } }

/-- A step of the loop's own thread or of another one. -/
def loopStep (l : LoopStep F (Option T)) : Except Unit (EventLoopThread F T) :=
  match (loopMachine F (Option T)).exec s.loop l with
  | .ok loop => s.onLoop { s with loop := loop }

end EventLoopThread

/-- The thread, its owner and others. They use the loop after `startLoop` has returned it, also when
it is gone. -/
def loopThread (F T : Type*) [DecidableEq T] :
    Machine (EventLoopThread F T) (LoopThreadStep F T) Unit where
  enabled s
    | .startLoop => s.owner = .idle
    | .lock => s.owner = .lock
    | .wake => s.cond.waiting ≠ []
    | .resume => s.cond.woken ≠ []
    | .runCallback => s.thread = .callback
    | .publish i => s.thread = .publish ∧ s.cond.CanNotify i
    | .loop l => (loopMachine F (Option T)).enabled s.loop l ∧
        (l.ownThread = true → s.thread = .loop) ∧
        (l.ownThread = false → s.owner.hasLoop = true ∧ l.byThread? ≠ some none)
    | .leaveLoop => s.thread = .loop ∧ s.loop.pc = .stopped
    | .quit => s.owner = .started
    | .wakeup => s.owner = .quit
    | .join => s.owner = .join ∧ s.thread = .finished
  exec s
    | .startLoop => .ok s.startLoop
    | .lock => .ok s.testLoop
    | .wake => .ok { s with cond := s.cond.wake 0 }
    | .resume => .ok ({ s with cond := s.cond.resume 0 }).testLoop
    | .runCallback => .ok { s with thread := .publish, initialized := true }
    | .publish i => .ok (s.publish i)
    | .loop l => s.loopStep l
    | .leaveLoop => .ok { s with thread := .finished }
    | .quit => s.quit
    | .wakeup => s.wakeup
    | .join => .ok { s with owner := .joined }

/-! ## The invariant -/

namespace EventLoopThread

variable {F T : Type*} {s u : EventLoopThread F T}

theorem onLoop_eq_ok_iff {v : EventLoopThread F T} :
    s.onLoop v = .ok u ↔ s.thread ≠ .finished ∧ u = v := by
  unfold onLoop
  split_ifs with hthread
  · exact ⟨by rintro ⟨⟩, fun h => absurd hthread h.1⟩
  · exact ⟨fun h => ⟨hthread, (Except.ok.inj h).symm⟩, fun h => congrArg Except.ok h.2.symm⟩

theorem finished_of_onLoop {v : EventLoopThread F T} {a : Unit} (hx : s.onLoop v = .error a) :
    s.thread = .finished := by
  by_contra hthread
  cases hx.symm.trans (onLoop_eq_ok_iff.mpr ⟨hthread, rfl⟩)

theorem loopStep_eq_ok_iff [DecidableEq T] {l : LoopStep F (Option T)} :
    s.loopStep l = .ok u ↔ ∃ loop, (loopMachine F (Option T)).exec s.loop l = .ok loop ∧
      s.thread ≠ .finished ∧ u = { s with loop := loop } := by
  unfold loopStep
  cases (loopMachine F (Option T)).exec s.loop l with
  | error e => exact e.elim
  | ok loop =>
    refine onLoop_eq_ok_iff.trans ⟨fun h => ⟨loop, rfl, h⟩, ?_⟩
    rintro ⟨loop', heq, h⟩
    obtain rfl := Except.ok.inj heq
    exact h

/-- `initialized` : the callback runs before the loop is published. `waits` : the one call that can
wait is that of the owner. `quitting` and `awake` are for the end of the loop. -/
structure Inv (s : EventLoopThread F T) : Prop where
  published : s.loop_ = s.thread.published
  initialized : s.loop_ = true → s.initialized = true
  publishing : s.thread = .publish → s.initialized = true
  unstarted : s.owner = .idle → s.thread = .unstarted
  hasLoop : s.owner.hasLoop = true → s.loop_ = true
  waits : s.cond.calls.length = if s.owner = .wait then 1 else 0
  notified : s.loop_ = true → s.cond.waiting = []
  stopped : s.loop.pc = .stopped → s.loop.quit = true
  finished : s.thread = .finished → s.loop.pc = .stopped
  quitting : s.owner = .quit → s.loop.quit = true
  awake : s.owner = .join → Awake s.loop

namespace Inv

theorem new : Inv (.new : EventLoopThread F T) where
  published := rfl
  initialized := nofun
  publishing := nofun
  unstarted _ := rfl
  hasLoop := nofun
  waits := rfl
  notified := nofun
  stopped := nofun
  finished := nofun
  quitting := nofun
  awake := nofun

theorem startLoop (h : s.Inv) (howner : s.owner = .idle) : Inv s.startLoop := by
  have hpublished := h.published
  have hwaits := h.waits
  rw [h.unstarted howner] at hpublished
  rw [howner] at hwaits
  exact ⟨hpublished, h.initialized, nofun, nofun, nofun, hwaits, h.notified, h.stopped, nofun,
    nofun, nofun⟩

theorem runCallback (h : s.Inv) (hthread : s.thread = .callback) :
    Inv { s with thread := .publish, initialized := true } := by
  have hpublished := h.published
  rw [hthread] at hpublished
  refine ⟨hpublished, fun _ => rfl, fun _ => rfl, fun howner => ?_, h.hasLoop, h.waits, h.notified,
    h.stopped, nofun, h.quitting, h.awake⟩
  cases (h.unstarted howner).symm.trans hthread

theorem leaveLoop (h : s.Inv) (hthread : s.thread = .loop) (hstopped : s.loop.pc = .stopped) :
    Inv { s with thread := .finished } := by
  have hpublished := h.published
  rw [hthread] at hpublished
  refine ⟨hpublished, h.initialized, nofun, fun howner => ?_, h.hasLoop, h.waits, h.notified,
    h.stopped, fun _ => hstopped, h.quitting, h.awake⟩
  cases (h.unstarted howner).symm.trans hthread

/-- The owner tests `loop_`, with no call waiting. -/
theorem testLoop (h : s.Inv) {cond : CondVar Unit} (hcond : cond.calls = []) :
    Inv (EventLoopThread.testLoop { s with cond := cond }) := by
  obtain ⟨hwaiting, -⟩ := List.append_eq_nil_iff.mp hcond
  unfold EventLoopThread.testLoop
  split_ifs with hloop
  · exact ⟨h.published, h.initialized, h.publishing, nofun, fun _ => hloop,
      congrArg List.length hcond, fun _ => hwaiting, h.stopped, h.finished, nofun, nofun⟩
  · have hone : (cond.wait ()).calls.length = 1 := by
      rw [(CondVar.calls_wait ()).length_eq, hcond]
      rfl
    exact ⟨h.published, h.initialized, h.publishing, nofun, nofun, hone,
      fun hset => absurd hset hloop, h.stopped, h.finished, nofun, nofun⟩

theorem lock (h : s.Inv) (howner : s.owner = .lock) : Inv s.testLoop := by
  have hwaits := h.waits
  rw [howner] at hwaits
  have hnone : s.cond.calls = [] := List.length_eq_zero_iff.mp hwaits
  exact h.testLoop hnone

/-- The call that was woken is that of the owner. -/
theorem owner_of_woken (h : s.Inv) (hwoken : s.cond.woken ≠ []) : s.owner = .wait := by
  by_contra howner
  have hwaits := h.waits
  rw [if_neg howner] at hwaits
  exact hwoken (List.append_eq_nil_iff.mp (List.length_eq_zero_iff.mp hwaits)).2

theorem resume (h : s.Inv) (hwoken : s.cond.woken ≠ []) :
    Inv (EventLoopThread.testLoop { s with cond := s.cond.resume 0 }) := by
  obtain ⟨w, woken, hwoken⟩ := List.exists_cons_of_ne_nil hwoken
  refine h.testLoop (List.length_eq_zero_iff.mp ?_)
  have hfirst : s.cond.woken[0]? = some w := by
    rw [hwoken]
    rfl
  have hperm := (CondVar.calls_resume hfirst).length_eq
  have hwaits := h.waits
  rw [List.length_append, List.length_singleton] at hperm
  split_ifs at hwaits <;> omega

theorem wake (h : s.Inv) : Inv { s with cond := s.cond.wake 0 } where
  published := h.published
  initialized := h.initialized
  publishing := h.publishing
  unstarted := h.unstarted
  hasLoop := h.hasLoop
  waits := (CondVar.calls_wake 0).length_eq.trans h.waits
  notified hset := by
    have hnone := h.notified hset
    simp [CondVar.wake, hnone]
  stopped := h.stopped
  finished := h.finished
  quitting := h.quitting
  awake := h.awake

/-- The one call that may wait is notified. -/
theorem publish (h : s.Inv) (hthread : s.thread = .publish) {i : ℕ} (hi : s.cond.CanNotify i) :
    Inv (s.publish i) where
  published := rfl
  initialized _ := h.publishing hthread
  publishing := nofun
  unstarted howner := by
    cases (h.unstarted howner).symm.trans hthread
  hasLoop _ := rfl
  waits := (CondVar.calls_wake i).length_eq.trans h.waits
  notified _ := by
    have hwaits := h.waits
    have hle : s.cond.waiting.length ≤ 1 := by
      rw [CondVar.calls, List.length_append] at hwaits
      split_ifs at hwaits <;> omega
    exact CondVar.waiting_notifyOne hle hi
  stopped := h.stopped
  finished := nofun
  quitting := h.quitting
  awake := h.awake

variable [DecidableEq T]

theorem loopStep (h : s.Inv) {l : LoopStep F (Option T)} (hx : s.loopStep l = .ok u) :
    u.Inv := by
  obtain ⟨loop, hloop, hthread, rfl⟩ := loopStep_eq_ok_iff.mp hx
  refine ⟨h.published, h.initialized, h.publishing, h.unstarted, h.hasLoop, h.waits, h.notified,
    stopped_step h.stopped hloop, fun hfinished => absurd hfinished hthread, fun howner => ?_,
    fun howner => (h.awake howner).step hloop⟩
  rw [quit_step hloop, h.quitting howner]
  rfl

theorem quit (h : s.Inv) (howner : s.owner = .started) (hx : s.quit = .ok u) : u.Inv := by
  obtain ⟨hthread, rfl⟩ := onLoop_eq_ok_iff.mp hx
  have hwaits := h.waits
  have hloop := h.hasLoop (by rw [howner]; rfl)
  rw [howner] at hwaits
  exact ⟨h.published, h.initialized, h.publishing, nofun, fun _ => hloop, hwaits, h.notified,
    fun _ => rfl, fun hfinished => absurd hfinished hthread, fun _ => rfl, nofun⟩

theorem wakeup (h : s.Inv) (howner : s.owner = .quit) (hx : s.wakeup = .ok u) : u.Inv := by
  obtain ⟨-, rfl⟩ := onLoop_eq_ok_iff.mp hx
  have hwaits := h.waits
  have hloop := h.hasLoop (by rw [howner]; rfl)
  rw [howner] at hwaits
  exact ⟨h.published, h.initialized, h.publishing, nofun, fun _ => hloop, hwaits, h.notified,
    h.stopped, h.finished, nofun, fun _ => ⟨h.quitting howner, fun _ => s.loop.wakeup_pos⟩⟩

theorem step {l : LoopThreadStep F T} (h : s.Inv) (he : (loopThread F T).enabled s l)
    (hx : (loopThread F T).exec s l = .ok u) : u.Inv := by
  cases l with
  | startLoop =>
    obtain rfl := Except.ok.inj hx
    exact h.startLoop he
  | lock =>
    obtain rfl := Except.ok.inj hx
    exact h.lock he
  | wake =>
    obtain rfl := Except.ok.inj hx
    exact h.wake
  | resume =>
    obtain rfl := Except.ok.inj hx
    exact h.resume he
  | runCallback =>
    obtain rfl := Except.ok.inj hx
    exact h.runCallback he
  | publish i =>
    obtain rfl := Except.ok.inj hx
    exact h.publish he.1 he.2
  | loop l => exact h.loopStep hx
  | leaveLoop =>
    obtain rfl := Except.ok.inj hx
    exact h.leaveLoop he.1 he.2
  | quit => exact h.quit he hx
  | wakeup => exact h.wakeup he hx
  | join =>
    obtain rfl := Except.ok.inj hx
    have hwaits := h.waits
    rw [he.1] at hwaits
    exact ⟨h.published, h.initialized, h.publishing, nofun,
      fun _ => h.hasLoop (by rw [he.1]; rfl), hwaits, h.notified, h.stopped, h.finished, nofun,
      nofun⟩

end Inv

/-! ## The end of the thread -/

variable [DecidableEq T]

/-- The thread ends by itself, and `join` returns. -/
def Joins (s : EventLoopThread F T) : Prop :=
  ∃ (ls : List (LoopStep F (Option T))) (u : EventLoopThread F T),
    (∀ l ∈ ls, l.ownThread = true) ∧
    ((loopThread F T).Run s (ls.map .loop ++ [.leaveLoop, .join]) u ∨
      (loopThread F T).Run s [.join] u) ∧ u.owner = .joined

/-- The steps of the loop are steps of the thread that is in it. -/
theorem run_loop {ls : List (LoopStep F (Option T))} {loop : EventLoop F (Option T)}
    (hrun : (loopMachine F (Option T)).Run s.loop ls loop)
    (hls : ∀ l ∈ ls, LoopStep.ownThread l = true) (hthread : s.thread = .loop) :
    (loopThread F T).Run s (ls.map .loop) { s with loop := loop } := by
  induction hrun with
  | nil => exact .nil
  | @snoc ls t u l _ he hx ih =>
    have hown := hls l (List.mem_append_right _ (List.mem_singleton_self _))
    rw [List.map_append]
    refine .snoc (ih fun l' hl' => hls l' (List.mem_append_left _ hl'))
      ⟨he, fun _ => hthread, ?_⟩ ?_
    · intro hother
      cases hown.symm.trans hother
    · exact loopStep_eq_ok_iff.mpr ⟨u, hx, by simp [hthread], rfl⟩

theorem run_join (howner : s.owner = .join) (hthread : s.thread = .finished) :
    (loopThread F T).Run s [.join] { s with owner := .joined } :=
  .snoc .nil ⟨howner, hthread⟩ rfl

theorem Inv.joins (h : s.Inv) (howner : s.owner = .join) : s.Joins := by
  have hloop := h.hasLoop (by rw [howner]; rfl)
  have hpublished := h.published
  rw [hloop] at hpublished
  cases hthread : s.thread with
  | unstarted | callback | publish =>
    rw [hthread] at hpublished
    cases hpublished
  | finished => exact ⟨[], _, List.forall_mem_nil _, .inr (run_join howner hthread), rfl⟩
  | loop =>
    obtain ⟨ls, loop, hls, hrun, hstopped⟩ :=
      stops_of_quit (h.awake howner).quit (h.awake howner).poll
    have hleave : (loopThread F T).Run { s with loop := loop } [.leaveLoop]
        { s with loop := loop, thread := .finished } :=
      .snoc .nil (And.intro hthread hstopped) rfl
    have hend := hleave.trans (run_join howner rfl)
    exact ⟨ls, _, hls, .inl ((run_loop hrun hls hthread).trans hend), rfl⟩

/-- Nobody but the owner has quit the loop. -/
def OwnQuit (s : EventLoopThread F T) : Prop :=
  s.loop.quit = true → s.owner.quits = true

/-- Another one quits the loop by calling `quit` on it. -/
theorem Inv.ownQuit_step {l : LoopThreadStep F T} (h : s.Inv) (hown : s.OwnQuit)
    (he : (loopThread F T).enabled s l) (hx : (loopThread F T).exec s l = .ok u)
    (hl : ∀ l', l = .loop l' → l'.quits = false) : u.OwnQuit := by
  have htest : ∀ cond, s.owner.quits = false →
      (EventLoopThread.testLoop { s with cond := cond }).OwnQuit := by
    intro cond howner hquit
    unfold EventLoopThread.testLoop at hquit
    split_ifs at hquit <;> cases howner.symm.trans (hown hquit)
  cases l with
  | startLoop =>
    obtain rfl := Except.ok.inj hx
    intro hquit
    have howner := hown hquit
    rw [show s.owner = .idle from he] at howner
    cases howner
  | lock =>
    obtain rfl := Except.ok.inj hx
    exact htest s.cond (by rw [show s.owner = .lock from he]; rfl)
  | resume =>
    obtain rfl := Except.ok.inj hx
    refine htest _ ?_
    rw [h.owner_of_woken he]
    rfl
  | wake | runCallback | publish | leaveLoop =>
    obtain rfl := Except.ok.inj hx
    exact hown
  | loop l =>
    obtain ⟨loop, hloop, -, rfl⟩ := loopStep_eq_ok_iff.mp hx
    intro hquit
    have hquit : loop.quit = true := hquit
    rw [quit_step hloop, hl l rfl, Bool.or_false] at hquit
    exact hown hquit
  | quit | wakeup =>
    obtain ⟨-, rfl⟩ := onLoop_eq_ok_iff.mp hx
    exact fun _ => rfl
  | join =>
    obtain rfl := Except.ok.inj hx
    exact fun _ => rfl

theorem inv_of_run {ls : List (LoopThreadStep F T)} (hrun : (loopThread F T).Run .new ls s) :
    s.Inv :=
  hrun.invariant .new fun _ _ _ ht he hx => ht.step he hx

theorem ownQuit_of_run {ls : List (LoopThreadStep F T)} (hrun : (loopThread F T).Run .new ls s)
    (hls : ∀ l, .loop l ∈ ls → LoopStep.quits l = false) : s.OwnQuit := by
  induction hrun with
  | nil => exact nofun
  | @snoc ls t u l hrun he hx ih =>
    have ht : t.OwnQuit := ih fun l' hl' => hls l' (List.mem_append_left _ hl')
    refine (inv_of_run hrun).ownQuit_step ht he hx fun l' hl' => hls l' ?_
    rw [hl']
    exact List.mem_append_right _ (List.mem_singleton_self _)

/-- A step fails if it is one on the loop and that is gone. -/
theorem exec_error {l : LoopThreadStep F T} {a : Unit} (he : (loopThread F T).enabled s l)
    (hx : (loopThread F T).exec s l = .error a) :
    s.thread = .finished ∧
      (l = .wakeup ∨ l = .quit ∨ ∃ l', l = .loop l' ∧ l'.ownThread = false) := by
  cases l with
  | quit => exact ⟨finished_of_onLoop hx, .inr (.inl rfl)⟩
  | wakeup => exact ⟨finished_of_onLoop hx, .inl rfl⟩
  | loop l =>
    change s.loopStep l = .error a at hx
    unfold loopStep at hx
    split at hx
    have hthread := finished_of_onLoop hx
    refine ⟨hthread, .inr (.inr ⟨l, rfl, eq_false_of_ne_true fun hown => ?_⟩)⟩
    cases (he.2.1 hown).symm.trans hthread
  | _ => cases hx

end EventLoopThread

open EventLoopThread in
/-- In every interleaving of the owner, the thread and others on its loop : `startLoop` returns a
loop whose callback has run, and is not left waiting once the loop is there. In `join`, the thread
gets to its end by its own steps. A step fails only if `loop()` has returned before : at the
`wakeup` of the destructor, at its `quit` if somebody else had quit the loop, or at a call of
another thread. -/
theorem event_loop_thread {F T : Type*} [DecidableEq T] {ls : List (LoopThreadStep F T)}
    {t : EventLoopThread F T} (hrun : (loopThread F T).Run .new ls t) :
    (t.owner.hasLoop = true → t.loop_ = true ∧ t.initialized = true) ∧
    (t.loop_ = true → t.cond.waiting = []) ∧
    (t.owner = .join → t.Joins) ∧
    (∀ l a, (loopThread F T).enabled t l → (loopThread F T).exec t l = .error a →
      t.thread = .finished ∧
        (l = .wakeup ∨ (l = .quit ∧ ∃ l', .loop l' ∈ ls ∧ LoopStep.quits l' = true) ∨
          ∃ l', l = .loop l' ∧ l'.ownThread = false)) := by
  have h := inv_of_run hrun
  refine ⟨fun howner => ?_, h.notified, h.joins, fun l a he hx => ?_⟩
  · have hloop := h.hasLoop howner
    exact ⟨hloop, h.initialized hloop⟩
  · obtain ⟨hthread, rfl | rfl | hother⟩ := exec_error he hx
    · exact ⟨hthread, .inl rfl⟩
    · refine ⟨hthread, .inr (.inl ⟨rfl, by_contra fun hnobody => ?_⟩)⟩
      have hown := ownQuit_of_run hrun fun l hl =>
        eq_false_of_ne_true fun hquits => hnobody ⟨l, hl, hquits⟩
      -- the loop has stopped because the owner had it quit, and the owner has not
      have howner := hown (h.stopped (h.finished hthread))
      rw [show t.owner = .started from he] at howner
      cases howner
    · exact ⟨hthread, .inr (.inr hother)⟩

/-- The owner waits for the thread, and quits it while its loop is in `poll`. -/
theorem event_loop_thread_quit : ∃ t : EventLoopThread ℕ ℕ, (loopThread ℕ ℕ).Run .new
      [.startLoop, .lock, .runCallback, .publish 0, .resume, .loop .advance, .quit, .wakeup] t ∧
    t.loop.pc = .poll ∧ t.initialized = true ∧ t.Joins := by
  have hwait : (loopThread ℕ ℕ).Run .new (([] ++ [.startLoop]) ++ [.lock]) _ :=
    .snoc (.snoc .nil rfl rfl) rfl rfl
  have hcallback : (loopThread ℕ ℕ).Run .new (_ ++ [.runCallback]) _ := hwait.snoc rfl rfl
  have hpublish : (loopThread ℕ ℕ).Run .new (_ ++ [.publish 0]) _ :=
    hcallback.snoc (And.intro rfl fun _ => Nat.zero_lt_one) rfl
  have hresume : (loopThread ℕ ℕ).Run .new (_ ++ [.resume]) _ :=
    hpublish.snoc (List.cons_ne_nil () []) rfl
  have hpoll : (loopThread ℕ ℕ).Run .new (_ ++ [.loop .advance]) _ :=
    hresume.snoc (And.intro rfl (And.intro (fun _ => rfl) nofun)) rfl
  have hquit : (loopThread ℕ ℕ).Run .new (_ ++ [.quit]) _ := hpoll.snoc rfl rfl
  have hrun : (loopThread ℕ ℕ).Run .new (_ ++ [.wakeup]) _ := hquit.snoc rfl rfl
  obtain ⟨hstarted, -, hjoins, -⟩ := event_loop_thread hrun
  exact ⟨_, hrun, rfl, (hstarted rfl).2, hjoins rfl⟩

end Tmuduo
