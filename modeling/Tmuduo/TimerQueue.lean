import Mathlib.Data.Finmap
import Mathlib.Data.Prod.Lex
import Tmuduo.Machine
import Tmuduo.OrderedSet
import Tmuduo.Timestamp

/-!
# The timer queue

`TimerQueue` is `tmuduo::net::TimerQueue` with the timerfd and the clock it reads. `handleRead`
runs user code, so it is not one step : `TimerPc` says where its loop is, and the steps of the
loop are `handleRead`, `startCallback`, `endCallback` and `finish`. Between them, inside a
callback, the user may add and cancel timers. The clock is read once in a step, and `tick` sets
it to any value between steps.

A step fails with `TimerFault` where an assertion of the source fails, or where the loop would
use a timer that is not there any more. Where `addTimerInLoop` reads the first of no entries, it
goes on with any value in `timerMachine`, and fails in `debugTimerMachine`, as it does when the
library checks iterators. The ghost fields record the timers added, the ids cancelled and the
callbacks started.
-/

set_option autoImplicit false

namespace Tmuduo

/-- `tmuduo::net::TimerId`, by its `sequence_`. -/
abbrev TimerId := ℤ

/-- `TimerQueue::TimerEntry`. -/
abbrev TimerEntry := Timestamp ×ₗ TimerId

/-- `std::make_pair(expiration, timerId)`. -/
def timerEntry (expiration : Timestamp) (timerId : TimerId) : TimerEntry :=
  toLex (expiration, timerId)

namespace TimerEntry

def first (e : TimerEntry) : Timestamp := (ofLex e).1

def second (e : TimerEntry) : TimerId := (ofLex e).2

end TimerEntry

/-- `tmuduo::net::Timer`. `delta` is `interval_` in microseconds, as `addTime` truncates it. -/
structure Timer where
  expiration : Timestamp
  delta : ℤ
  repeats : Bool
  sequence : ℤ
  deriving DecidableEq, Repr

def Timer.restart (timer : Timer) (now : Timestamp) : Timer :=
  { timer with expiration :=
      if timer.repeats then now.addTime timer.delta else Timestamp.invalid }

def INT64_MAX : ℤ := 2 ^ 63 - 1

/-! ## The timerfd -/

/-- `struct timespec`. -/
structure Timespec where
  tv_sec : ℤ
  tv_nsec : ℤ
  deriving DecidableEq, Repr

/-- The duration in microseconds. -/
def Timespec.toMicroSeconds (ts : Timespec) : ℤ :=
  ts.tv_sec * Timestamp.kMicroSecondsPerSecond + ts.tv_nsec.tdiv 1000

/-- A one-shot timerfd : the time at which it is due to expire, whether it has expired and was
not read, and the time it was last armed at. -/
structure Timerfd where
  deadline : Option Timestamp
  unread : Bool
  armedAt : Timestamp
  deriving DecidableEq, Repr

namespace Timerfd

/-- `::timerfd_settime` : a relative time, and an expiry that was not read is forgotten. -/
def settime (now : Timestamp) (value : Timespec) : Timerfd where
  deadline := some (now + value.toMicroSeconds)
  unread := false
  armedAt := now

variable (fd : Timerfd)

/-- `readTimerfd`. -/
def read : Timerfd :=
  { fd with unread := false }

/-- The clock shows `now`. -/
def elapse (now : Timestamp) : Timerfd :=
  match fd.deadline with
  | some d => if d ≤ now then { fd with deadline := none, unread := true } else fd
  | none => fd

end Timerfd

/-- `howMuchTimeFromNow`, when the clock shows `now`. -/
def howMuchTimeFromNow (expiration now : Timestamp) : Timespec :=
  let microseconds := expiration - now
  let microseconds := if microseconds < 100 then 100 else microseconds
  ⟨microseconds.tdiv Timestamp.kMicroSecondsPerSecond,
    microseconds.tmod Timestamp.kMicroSecondsPerSecond * 1000⟩

/-! ## The queue -/

/-- Where `handleRead` is : not running, between two timers of its batch, or in the callback of
one of them. `now` is its reading of the clock, `rest` what is left of the batch. -/
inductive TimerPc
  | outside
  | batch (now : Timestamp) (rest : List TimerEntry)
  | calling (now : Timestamp) (timerId : TimerId) (rest : List TimerEntry)
  deriving DecidableEq

namespace TimerPc

/-- User code may run. -/
def inUserCode : TimerPc → Bool
  | outside => true
  | batch _ _ => false
  | calling _ _ _ => true

/-- The entries of the batch that have not started. -/
def rest : TimerPc → List TimerEntry
  | outside => []
  | batch _ rest => rest
  | calling _ _ rest => rest

/-- The timer whose callback runs. -/
def current : TimerPc → Option TimerId
  | calling _ timerId _ => some timerId
  | _ => none

/-- The timers of the batch that the loop has yet to use. -/
def pending (pc : TimerPc) : List TimerId :=
  pc.current.toList ++ pc.rest.map TimerEntry.second

end TimerPc

/-- A callback that started : its timer, the expiration it had, and `now` of the `handleRead`. -/
structure TimerStart where
  timerId : TimerId
  expiration : Timestamp
  now : Timestamp
  deriving DecidableEq, Repr

/-- `tmuduo::net::TimerQueue`. A stored timer is `none` where the source has a null pointer. -/
structure TimerQueue where
  timers : Finmap fun _ : TimerId => Option Timer
  timerEntries : OrderedSet TimerEntry
  timerfd : Timerfd
  clock : Timestamp
  pc : TimerPc
  added : List Timer
  cancelled : List TimerId
  starts : List TimerStart

/-- How the code of the queue goes wrong. `noEntry` : the first of no entries is read. -/
inductive TimerFault
  | cancelAssert
  | getExpiredAssert
  | countAssert
  | nullTimer
  | danglingTimer
  | noEntry
  deriving DecidableEq, Repr

namespace TimerQueue

/-- `TimerQueue::TimerQueue`, at some time. -/
def new (clock : Timestamp) : TimerQueue where
  timers := ∅
  timerEntries := .empty
  timerfd := ⟨none, false, clock⟩
  clock := clock
  pc := .outside
  added := []
  cancelled := []
  starts := []

variable (s : TimerQueue)

/-- The timerfd after `resetTimerfd`. -/
def resetTimerfd (expiration : Timestamp) : Timerfd :=
  .settime s.clock (howMuchTimeFromNow expiration s.clock)

/-- The test of `addTimerInLoop`. When there are timers and no entries it reads the end of the
set, and `garbage` is what comes of that where iterators are not checked. -/
def earliestChanged (expiration : Timestamp) (garbage : Bool) : Bool :=
  s.timers = ∅ ||
    match s.timerEntries.min? with
    | some e => expiration < e.first
    | none => garbage

def addTimerInLoop (timer : Timer) (garbage : Bool) : TimerQueue :=
  { s with
    timerfd := if s.earliestChanged timer.expiration garbage then
      s.resetTimerfd timer.expiration else s.timerfd
    timerEntries := s.timerEntries.insert (timerEntry timer.expiration timer.sequence)
    timers := s.timers.insert timer.sequence (some timer)
    added := s.added ++ [timer] }

/-- `cancelInLoop`. The `timers_[timerId]` of its assertion stores a null pointer under an id
that is not there. -/
def cancelInLoop (timerId : TimerId) : Except TimerFault TimerQueue :=
  let timers := if timerId ∈ s.timers then s.timers else s.timers.insert timerId none
  match timers.lookup timerId with
  | some (some timer) => .ok
    { s with
      timerEntries := s.timerEntries.erase (timerEntry timer.expiration timerId)
      timers := timers.erase timerId
      cancelled := s.cancelled ++ [timerId] }
  | _ => .error .cancelAssert

/-- `getExpired` : the entries that have expired, and the set without them. -/
def getExpired (now : Timestamp) :
    Except TimerFault (List TimerEntry × OrderedSet TimerEntry) := do
  let sentry := timerEntry now INT64_MAX
  let rest := s.timerEntries.dropBelow sentry
  check (∀ e ∈ rest.min?, now < e.first) .getExpiredAssert
  return (s.timerEntries.below sentry, rest)

/-- `handleRead`, up to its loop. -/
def handleRead : Except TimerFault TimerQueue := do
  let (expired, timerEntries) ← s.getExpired s.clock
  return { s with
    timerfd := s.timerfd.read
    timerEntries := timerEntries
    pc := .batch s.clock expired }

/-- The loop reaches the next timer of the batch, and runs it. -/
def startCallback : Except TimerFault TimerQueue :=
  match s.pc with
  | .batch now (e :: rest) =>
    match s.timers.lookup e.second with
    | none => .error .countAssert
    | some none => .error .nullTimer
    | some (some timer) => .ok
      { s with
        pc := .calling now e.second rest
        starts := s.starts ++ [⟨e.second, timer.expiration, now⟩] }
  | _ => .ok s

/-- The callback returns, and the loop restarts its timer or erases it. -/
def endCallback : Except TimerFault TimerQueue :=
  match s.pc with
  | .calling now timerId rest =>
    match s.timers.lookup timerId with
    | some (some timer) =>
      if timer.repeats then
        let timer' := timer.restart s.clock
        .ok { s with
          timers := s.timers.insert timerId (some timer')
          timerEntries := s.timerEntries.insert (timerEntry timer'.expiration timer'.sequence)
          pc := .batch now rest }
      else .ok { s with timers := s.timers.erase timerId, pc := .batch now rest }
    | _ => .error .danglingTimer
  | _ => .ok s

/-- `handleRead`, after its loop. -/
def finish : TimerQueue :=
  let nextExpireTime := (s.timerEntries.min?.map TimerEntry.first).getD Timestamp.invalid
  { s with
    timerfd := if nextExpireTime.valid then s.resetTimerfd nextExpireTime else s.timerfd
    pc := .outside }

end TimerQueue

/-- A step of the user, of `handleRead`, or of the clock. -/
inductive TimerStep
  | addTimer (timer : Timer) (garbage : Bool)
  | cancel (timerId : TimerId)
  | handleRead
  | startCallback
  | endCallback
  | finish
  | tick (now : Timestamp)

open TimerQueue in
/-- The queue under any use of it : ids are new and below `INT64_MAX`, and a timer is cancelled
only while it is in `timers_`. -/
def timerMachine : Machine TimerQueue TimerStep TimerFault where
  enabled s
    | .addTimer timer _ => s.pc.inUserCode = true ∧ timer.sequence < INT64_MAX ∧
        ∀ t ∈ s.added, t.sequence ≠ timer.sequence
    | .cancel timerId => s.pc.inUserCode = true ∧ timerId ∈ s.timers
    | .handleRead => s.pc = .outside
    | .startCallback => ∃ now e rest, s.pc = .batch now (e :: rest)
    | .endCallback => ∃ now timerId rest, s.pc = .calling now timerId rest
    | .finish => ∃ now, s.pc = .batch now []
    | .tick _ => True
  exec s
    | .addTimer timer garbage => .ok (s.addTimerInLoop timer garbage)
    | .cancel timerId => s.cancelInLoop timerId
    | .handleRead => s.handleRead
    | .startCallback => s.startCallback
    | .endCallback => s.endCallback
    | .finish => .ok s.finish
    | .tick now => .ok { s with clock := now, timerfd := s.timerfd.elapse now }

instance (s : TimerQueue) (l : TimerStep) : Decidable (timerMachine.enabled s l) :=
  match l with
  | .addTimer timer _ => inferInstanceAs (Decidable (s.pc.inUserCode = true ∧
      timer.sequence < INT64_MAX ∧ ∀ t ∈ s.added, t.sequence ≠ timer.sequence))
  | .cancel timerId => inferInstanceAs (Decidable (s.pc.inUserCode = true ∧ timerId ∈ s.timers))
  | .handleRead => inferInstanceAs (Decidable (s.pc = .outside))
  | .startCallback =>
    match h : s.pc with
    | .batch now (e :: rest) => isTrue ⟨now, e, rest, h⟩
    | .batch _ [] => isFalse (by rintro ⟨_, _, _, h'⟩; rw [h] at h'; cases h')
    | .outside => isFalse (by rintro ⟨_, _, _, h'⟩; rw [h] at h'; cases h')
    | .calling _ _ _ => isFalse (by rintro ⟨_, _, _, h'⟩; rw [h] at h'; cases h')
  | .endCallback =>
    match h : s.pc with
    | .calling now timerId rest => isTrue ⟨now, timerId, rest, h⟩
    | .outside => isFalse (by rintro ⟨_, _, _, h'⟩; rw [h] at h'; cases h')
    | .batch _ _ => isFalse (by rintro ⟨_, _, _, h'⟩; rw [h] at h'; cases h')
  | .finish =>
    match h : s.pc with
    | .batch now [] => isTrue ⟨now, h⟩
    | .batch _ (_ :: _) => isFalse (by rintro ⟨_, h'⟩; rw [h] at h'; cases h')
    | .outside => isFalse (by rintro ⟨_, h'⟩; rw [h] at h'; cases h')
    | .calling _ _ _ => isFalse (by rintro ⟨_, h'⟩; rw [h] at h'; cases h')
  | .tick _ => isTrue trivial

/-- A callback cancels neither its own timer nor one of its batch that has not run. -/
def CancelsOutsideBatch (s : TimerQueue) : TimerStep → Prop
  | .cancel timerId => timerId ∉ s.pc.pending
  | _ => True

instance (s : TimerQueue) : ∀ l, Decidable (CancelsOutsideBatch s l)
  | .cancel timerId => inferInstanceAs (Decidable (timerId ∉ s.pc.pending))
  | .addTimer _ _ | .handleRead | .startCallback | .endCallback | .finish | .tick _ =>
    isTrue trivial

/-- Callbacks do not cancel. -/
def CancelsOutsideCallbacks (s : TimerQueue) : TimerStep → Prop
  | .cancel _ => s.pc = .outside
  | _ => True

instance (s : TimerQueue) : ∀ l, Decidable (CancelsOutsideCallbacks s l)
  | .cancel _ => inferInstanceAs (Decidable (s.pc = .outside))
  | .addTimer _ _ | .handleRead | .startCallback | .endCallback | .finish | .tick _ =>
    isTrue trivial

end Tmuduo
