import LiveProgress.Number.Basic
import LiveProgress.Quantity.Timestamp

/-!
# Clock readings

The time at which something is shown, in whole milliseconds since the epoch. Dates reach
a hundred million days to both sides; a clock that stands beyond them shows no time.
-/

namespace LiveProgress

/-- Milliseconds since the epoch, or nothing if the clock stands beyond all dates. -/
abbrev Clock := Option Int

namespace Clock

/-- The greatest distance of a date from the epoch. -/
def range : Nat := 8640000000000000

/-- The reading of a clock that stands at a number of milliseconds. -/
def ofMillis (ms : Number) : Clock :=
  if ms.abs ≤ .ofNat range then some ms.wholePart else none

/-- The reading as a number of milliseconds. -/
def millis (c : Clock) : Number := c.elim .undefined .ofInt

/-- The time of day as `HH:MM:SS.mmm`. -/
def text : Clock → String
  | some ms => (DateTime.ofEpochNanos (ms * 1000000)).clockText ++ "." ++ padded 3 (ms % 1000)
  | none => "Invalid Date.NaN"

end Clock
end LiveProgress
