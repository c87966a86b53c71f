import Mathlib.Algebra.Group.Int.Defs
import Mathlib.Algebra.Group.Nat.Defs

/-! The clocks of `std::time`: monotonic instants, durations and system times, in nanoseconds. -/

namespace HarborSql

/-- `std::time::Duration`. -/
abbrev Duration := Nat

/-- `std::time::Instant`: nanoseconds since the origin of the monotonic clock. -/
abbrev Instant := Nat

/-- `std::time::SystemTime`: nanoseconds since (or, negative, before) `UNIX_EPOCH`. -/
abbrev SystemTime := Int

namespace Duration

def fromMillis (ms : Nat) : Duration := ms * 1000000

def asMillis (d : Duration) : Nat := d / 1000000

end Duration

namespace Instant

/-- The last instant the platform can represent: `i64` seconds and the nanoseconds of a second. -/
def last : Instant := (2 ^ 63 - 1) * 1000000000 + 999999999

def checkedAdd (now : Instant) (duration : Duration) : Option Instant :=
  if now + duration ≤ last then some (now + duration) else none

def saturatingDurationSince (now earlier : Instant) : Duration := now - earlier

end Instant

namespace SystemTime

/-- `duration_since`, with its error replaced by `Duration::ZERO`. -/
def durationSince (time earlier : SystemTime) : Duration := (time - earlier).toNat

/-- The last system time the platform can represent. -/
def last : SystemTime := (2 ^ 63 - 1) * 1000000000 + 999999999

end SystemTime
end HarborSql
