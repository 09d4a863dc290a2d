import OrderRail.Count
import OrderRail.Decimal.Fixed

/-!
# Durations

A span of time in whole seconds and nanoseconds below one second. Its text uses the largest unit
that leaves a nonzero integer part and shows the exact fraction without trailing zeros.
-/

namespace OrderRail

/-- How many nanoseconds make a second. -/
def Duration.nanosPerSecond : Nat := 1000000000

/-- How many nanoseconds make a millisecond. -/
def Duration.nanosPerMilli : Nat := 1000000

/-- How many nanoseconds make a microsecond. -/
def Duration.nanosPerMicro : Nat := 1000

/-- A span of time; the seconds fill a 64-bit word. -/
structure Duration where
  seconds : UInt64
  nanos : Nat
  nanos_lt : nanos < Duration.nanosPerSecond := by decide
  deriving DecidableEq, Repr

namespace Duration

/-- No time at all. -/
def zero : Duration := { seconds := 0, nanos := 0 }

/-- One hour. -/
def hour : Duration := { seconds := 3600, nanos := 0 }

/-- The length in nanoseconds. -/
def toNanos (d : Duration) : Nat := d.seconds.toNat * nanosPerSecond + d.nanos

/-- The length in whole milliseconds. -/
def toMillis (d : Duration) : Nat := d.toNanos / nanosPerMilli

/-- The length in whole milliseconds as a word, which keeps the low bits of a longer number. -/
def millisWord (d : Duration) : UInt64 := UInt64.ofNat d.toMillis

/-- The span of so many milliseconds, or the longest one if that is too short. -/
def ofMillis (ms : Nat) : Duration :=
  if ms / 1000 < Count.wordSize then
    { seconds := UInt64.ofNat (ms / 1000)
      nanos := ms % 1000 * nanosPerMilli
      nanos_lt := by unfold nanosPerMilli nanosPerSecond; omega }
  else { seconds := 18446744073709551615, nanos := 999999999 }

/-- The length in seconds as a float: both parts are converted first. -/
def toSeconds (d : Duration) : Float :=
  d.seconds.toFloat + d.nanos.toUInt64.toFloat / 1000000000.0

/-- The digits of a fraction with the zeros at its end left out. -/
def trimmed (digits : List Char) : List Char :=
  (digits.reverse.dropWhile (· == '0')).reverse

/-- An integer part and `places` digits of fraction, with a point only if a digit follows it. -/
def exactText (whole places fraction : Nat) : String :=
  match trimmed (Decimal.padded places fraction).toList with
  | [] => toString whole
  | digits => toString whole ++ "." ++ String.ofList digits

/-- The text of a duration. -/
def text (d : Duration) : String :=
  if 0 < d.seconds then exactText d.seconds.toNat 9 d.nanos ++ "s"
  else if nanosPerMilli ≤ d.nanos then
    exactText (d.nanos / nanosPerMilli) 6 (d.nanos % nanosPerMilli) ++ "ms"
  else if nanosPerMicro ≤ d.nanos then
    exactText (d.nanos / nanosPerMicro) 3 (d.nanos % nanosPerMicro) ++ "µs"
  else toString d.nanos ++ "ns"

end Duration

end OrderRail
