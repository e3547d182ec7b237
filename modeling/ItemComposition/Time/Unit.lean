/-!
# Units of time

All durations of the library are numbers of nanoseconds; a unit says how many it stands for.
-/

namespace ItemComposition

/-- Units of time. -/
inductive TimeUnit where
  | nanosecond
  | microsecond
  | millisecond
  | second
  | minute
  | hour
  deriving DecidableEq, Repr

namespace TimeUnit

/-- The nanoseconds in a unit. -/
def nanos : TimeUnit → Nat
  | nanosecond => 1
  | microsecond => 1000
  | millisecond => 1000000
  | second => 1000000000
  | minute => 60000000000
  | hour => 3600000000000

/-- Reads the sign of a unit; the Greek letter may be written by either of its code points. -/
def read? : String → Option TimeUnit
  | "ns" => some nanosecond
  | "us" | "\u00b5s" | "\u03bcs" => some microsecond
  | "ms" => some millisecond
  | "s" => some second
  | "m" => some minute
  | "h" => some hour
  | _ => none

end TimeUnit

end ItemComposition
