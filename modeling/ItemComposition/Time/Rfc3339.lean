import ItemComposition.Time.Unit

/-!
# Timestamps with an offset

`Instant.read?` accepts `2024-01-10T00:00:00Z` and its kin: a date, a separator (`T`, `t` or a
blank), a time of day with seconds and an optional fraction, and an offset (`Z`, `z` or hours and
minutes with a colon). A leap second is second 59 with a millisecond part of at least 1000.
-/

namespace ItemComposition

/-- A point in time: whole seconds since 1970-01-01T00:00:00Z and nanoseconds after that, from
`10 ^ 9` on during a leap second. -/
structure Instant where
  seconds : Int
  nanos : Nat
  deriving DecidableEq, Repr

namespace Instant

/-- Whether a year of the proleptic Gregorian calendar is a leap year. -/
def isLeapYear (year : Nat) : Bool := year % 4 = 0 && (year % 100 ≠ 0 || year % 400 = 0)

/-- The number of days of a month. -/
def daysInMonth (year month : Nat) : Nat :=
  match month with
  | 2 => if isLeapYear year then 29 else 28
  | 4 | 6 | 9 | 11 => 30
  | _ => 31

/-- The days of the year before a month. -/
def daysBeforeMonth (year month : Nat) : Nat :=
  ((List.range month).tail.map (daysInMonth year)).foldl (· + ·) 0

/-- The days from 0000-01-01 to the first day of a year. -/
def daysBeforeYear (year : Nat) : Nat :=
  if year = 0 then 0
  else
    let y := year - 1
    365 * year + (y / 4 - y / 100 + y / 400 + 1)

/-- The days from 1970-01-01 to a date. -/
def daysSinceEpoch (year month day : Nat) : Int :=
  (daysBeforeYear year + daysBeforeMonth year month + (day - 1) : Nat) - (daysBeforeYear 1970 : Nat)

/-- The number written by decimal digits. -/
def digitsValue (cs : List Char) : Nat :=
  cs.foldl (fun n c => n * 10 + (c.toNat - '0'.toNat)) 0

/-- Exactly `count` digits at the start. -/
def fixedDigits (count : Nat) (cs : List Char) : Option (Nat × List Char) :=
  let digits := cs.take count
  if digits.length = count && digits.all Char.isDigit then
    some (digitsValue digits, cs.drop count)
  else none

/-- One given character at the start. -/
def literal (c : Char) : List Char → Option (List Char)
  | d :: rest => if d = c then some rest else none
  | [] => none

/-- A fraction of a second: at least one digit, digits after the ninth are ignored. -/
def fraction (cs : List Char) : Option (Nat × List Char) :=
  match cs with
  | '.' :: cs =>
    let digits := cs.takeWhile Char.isDigit
    if digits.isEmpty then none
    else
      let kept := digits.take 9
      some (digitsValue kept * Nat.pow 10 (9 - kept.length), cs.dropWhile Char.isDigit)
  | cs => some (0, cs)

/-- An offset from UTC in minutes: below a day in either direction. -/
def offset (cs : List Char) : Option (Int × List Char) :=
  match cs with
  | [] => none
  | c :: rest =>
    if c = 'Z' || c = 'z' then some (0, rest)
    -- the minus sign of typography counts as one too
    else if c = '+' || c = '-' || c = '\u2212' then do
      let (hours, rest) ← fixedDigits 2 rest
      let rest ← literal ':' rest
      let (minutes, rest) ← fixedDigits 2 rest
      if 23 < hours || 59 < minutes then none
      else
        let total : Int := (hours * 60 + minutes : Nat)
        some (if c = '+' then total else -total, rest)
    else none

/-- Reads a whole text as a timestamp. -/
def read? (text : String) : Option Instant := do
  let (year, cs) ← fixedDigits 4 text.toList
  let cs ← literal '-' cs
  let (month, cs) ← fixedDigits 2 cs
  let cs ← literal '-' cs
  let (day, cs) ← fixedDigits 2 cs
  let cs ← match cs with
    | c :: cs => if c = 'T' || c = 't' || c = ' ' then some cs else none
    | [] => none
  let (hour, cs) ← fixedDigits 2 cs
  let cs ← literal ':' cs
  let (minute, cs) ← fixedDigits 2 cs
  let cs ← literal ':' cs
  let (second, cs) ← fixedDigits 2 cs
  let (nanos, cs) ← fraction cs
  let (shift, cs) ← offset cs
  if cs.isEmpty && 1 ≤ month && month ≤ 12 && 1 ≤ day && day ≤ daysInMonth year month
      && hour ≤ 23 && minute ≤ 59 && second ≤ 60 then
    -- a leap second is more than a second after the second before it
    let leap := second = 60
    let ofDay : Int := (hour * 3600 + minute * 60 + min second 59 : Nat)
    some {
      seconds := daysSinceEpoch year month day * 86400 + ofDay - shift * 60
      nanos := if leap then nanos + TimeUnit.second.nanos else nanos }
  else none

/-- The whole milliseconds after the second. -/
def millis (t : Instant) : Nat := t.nanos / TimeUnit.millisecond.nanos

end Instant

end ItemComposition
