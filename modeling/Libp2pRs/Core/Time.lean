import Mathlib

/-!
# The clock

An `Instant` is a number of nanoseconds since a fixed origin. A function that reads the clock
takes the reading as an argument; one event reads it once.
-/

namespace Libp2pRs.Core

abbrev Instant := Nat

abbrev Duration := Nat

def Duration.fromSecs (secs : Nat) : Duration := secs * 1000000000

def Duration.asSecs (d : Duration) : Nat := d / 1000000000

/-- The longest span of time: `u64::MAX` seconds and 999999999 nanoseconds. -/
def Duration.max : Duration := 2 ^ 64 * 1000000000 - 1

/-- The last reading that the clock can represent: `i64::MAX` seconds and 999999999
nanoseconds. -/
def Instant.max : Instant := 2 ^ 63 * 1000000000 - 1

/-- `instant + duration`, which panics when the sum cannot be represented. -/
def Instant.checkedAdd (t : Instant) (d : Duration) : Option Instant :=
  if t + d ≤ Instant.max then some (t + d) else none

/-- `now.duration_since(earlier)`, zero when `earlier` is not in the past. -/
def Instant.durationSince (now earlier : Instant) : Duration := now - earlier

end Libp2pRs.Core
