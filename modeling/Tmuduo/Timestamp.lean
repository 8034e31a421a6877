import Mathlib.Data.Int.Order.Basic
import Mathlib.Tactic.Common

/-!
# Timestamps

`tmuduo::Timestamp` is a number of microseconds since the epoch. The comparisons of the source
are those of the integers. An interval of seconds is the number of microseconds to which
`addTime` truncates it.
-/

set_option autoImplicit false

namespace Tmuduo

/-- `tmuduo::Timestamp`, by its `microSecondsSinceEpoch_`. -/
abbrev Timestamp := ℤ

namespace Timestamp

def kMicroSecondsPerSecond : ℤ := 1000 * 1000

def invalid : Timestamp := 0

def valid (t : Timestamp) : Bool := 0 < t

/-- `addTime`, of an interval that is `delta` whole microseconds. -/
def addTime (t : Timestamp) (delta : ℤ) : Timestamp := t + delta

end Timestamp

end Tmuduo
