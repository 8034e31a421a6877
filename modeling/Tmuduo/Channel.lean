import Mathlib.Data.Int.Notation
import Mathlib.Tactic.Common
import Tmuduo.Machine

/-!
# The channel's interest mask

`Channel::events_` is a bit mask of `<poll.h>`. A channel is writing when the mask holds
`POLLOUT`, and the operations on the mask move that bit alone.
-/

set_option autoImplicit false

namespace Tmuduo

/-- There is something to read. -/
def POLLIN : BitVec 32 := 0x001#32

/-- There is urgent data to read. -/
def POLLPRI : BitVec 32 := 0x002#32

/-- A write would not block. -/
def POLLOUT : BitVec 32 := 0x004#32

/-- `tmuduo::net::Channel`, the part its own operations on the interest read and write. -/
structure Channel where
  fd : ℤ
  events : BitVec 32
  addedToLoop : Bool
  deriving DecidableEq, Repr

namespace Channel

/-- The mask of a channel without interest. -/
def kNoneEvent : BitVec 32 := 0#32

/-- What reading waits for. -/
def kReadEvent : BitVec 32 := POLLIN ||| POLLPRI

/-- What writing waits for. -/
def kWriteEvent : BitVec 32 := POLLOUT

/-- The members as the constructor initialises them. -/
def new (fd : ℤ) : Channel :=
  ⟨fd, 0#32, false⟩

variable (c : Channel)

/-- The poller need not watch the channel. -/
def isNoneEvent : Bool := c.events == kNoneEvent

def isWriting : Bool := c.events &&& kWriteEvent != 0#32

def isReading : Bool := c.events &&& kReadEvent != 0#32

/-- A new mask, and `update`, which hands it to the poller. -/
def update (events : BitVec 32) : Channel :=
  { c with events := events, addedToLoop := true }

/-- The read events are added to the mask. -/
def enableReading : Channel := c.update (c.events ||| kReadEvent)

def disableReading : Channel := c.update (c.events &&& ~~~kReadEvent)

def enableWriting : Channel := c.update (c.events ||| kWriteEvent)

def disableWriting : Channel := c.update (c.events &&& ~~~kWriteEvent)

def disableAll : Channel := c.update kNoneEvent

/-- `Channel::remove`, with the assertion that no interest is left. The one of
`EventLoop::removeChannel`, which it calls, is a matter of the loop (`EventBatch.MayRemove`,
`ConnectorWorld.mayRemove`). -/
def remove : Except Unit Channel := do
  check (c.isNoneEvent = true) ()
  return { c with addedToLoop := false }

/-- A channel is writing when bit 2 of its mask is set. -/
theorem isWriting_eq_getLsbD : c.isWriting = c.events.getLsbD 2 := by
  have hbit : kWriteEvent = BitVec.twoPow 32 2 := by decide
  unfold isWriting
  rw [hbit, BitVec.and_twoPow]
  cases c.events.getLsbD 2 <;> decide

@[simp] theorem isWriting_new (fd : ℤ) : (new fd).isWriting = false := by
  rw [isWriting_eq_getLsbD, new, BitVec.getLsbD_zero]

/-- Reading and writing have different bits. -/
@[simp] theorem isWriting_enableReading : c.enableReading.isWriting = c.isWriting := by
  have hbit : kReadEvent.getLsbD 2 = false := by decide
  rw [isWriting_eq_getLsbD, isWriting_eq_getLsbD, enableReading, update, BitVec.getLsbD_or, hbit,
    Bool.or_false]

@[simp] theorem isWriting_enableWriting : c.enableWriting.isWriting = true := by
  have hbit : kWriteEvent.getLsbD 2 = true := by decide
  rw [isWriting_eq_getLsbD, enableWriting, update, BitVec.getLsbD_or, hbit, Bool.or_true]

@[simp] theorem isWriting_disableWriting : c.disableWriting.isWriting = false := by
  have hbit : (~~~kWriteEvent).getLsbD 2 = false := by decide
  rw [isWriting_eq_getLsbD, disableWriting, update, BitVec.getLsbD_and, hbit, Bool.and_false]

end Channel

end Tmuduo
