import ItemComposition.Decimal.Text
import ItemComposition.Time.Rfc3339

/-!
# Dates and times of day, and their layouts

`CivilTime.layout?` writes a time by a pattern in which a percent sign and a letter stand for a
field, as in `%Y-%m-%d`.
-/

namespace ItemComposition

/-- A date, a time of day and perhaps an offset from UTC in minutes. -/
structure CivilTime where
  year : Nat
  month : Nat
  day : Nat
  /-- Seconds since midnight. -/
  second : Nat
  nanos : Nat
  offset : Option Int

namespace CivilTime

/-- The date a number of days after 0000-01-01. -/
def dateOfDays (days : Nat) : Nat × Nat × Nat :=
  -- no year has more than 366 days, so the guess is not too late
  let guess := days / 366
  let year := go guess 400
  let ofYear := days - Instant.daysBeforeYear year
  let month := ((List.range 12).filter fun m => Instant.daysBeforeMonth year (m + 1) ≤ ofYear).length
  (year, month, ofYear - Instant.daysBeforeMonth year month + 1)
where
  go (year : Nat) : Nat → Nat
    | 0 => year
    | fuel + 1 => if Instant.daysBeforeYear (year + 1) ≤ days then go (year + 1) fuel else year

/-- The time a number of seconds after 1970-01-01, for years from 0 on. -/
def ofSeconds? (seconds : Int) (nanos : Nat) (offset : Option Int) : Option CivilTime :=
  let shifted := seconds + (offset.getD 0) * 60 + (Instant.daysBeforeYear 1970 : Int) * 86400
  match shifted with
  | .ofNat n =>
    let (year, month, day) := dateOfDays (n / 86400)
    some ⟨year, month, day, n % 86400, nanos, offset⟩
  | .negSucc _ => none

/-- Days since 0000-01-01. -/
def dayNumber (t : CivilTime) : Nat :=
  Instant.daysBeforeYear t.year + Instant.daysBeforeMonth t.year t.month + (t.day - 1)

/-- The day of the week, from 0 on Sunday to 6 on Saturday. -/
def weekday (t : CivilTime) : Nat := (t.dayNumber + 6) % 7

/-- The day of the year, from 1. -/
def yearDay (t : CivilTime) : Nat := Instant.daysBeforeMonth t.year t.month + t.day

/-- The year and week of the calendar whose weeks start on Monday and whose first week holds the
first Thursday of the year. -/
def isoWeek (t : CivilTime) : Nat × Nat :=
  let thursday := t.dayNumber + 4 - (if t.weekday = 0 then 7 else t.weekday)
  let (year, _, _) := dateOfDays thursday
  (year, (thursday - Instant.daysBeforeYear year) / 7 + 1)

/-- The names of the days of the week. -/
def dayNames : List String :=
  ["Sunday", "Monday", "Tuesday", "Wednesday", "Thursday", "Friday", "Saturday"]

/-- The names of the months. -/
def monthNames : List String :=
  ["January", "February", "March", "April", "May", "June", "July", "August", "September",
    "October", "November", "December"]

/-- A number with leading characters up to a width. -/
def padded (fill : Char) (width n : Nat) : String :=
  let ds := Decimal.natDigits n
  String.ofList (List.replicate (width - ds.length) fill ++ ds)

/-- An offset as sign, hours and minutes. -/
def offsetText (colon : String) (minutes : Int) : String :=
  (if minutes < 0 then "-" else "+") ++ padded '0' 2 (minutes.natAbs / 60) ++ colon
    ++ padded '0' 2 (minutes.natAbs % 60)

/-- The hour on a clock face. -/
def clockHour (t : CivilTime) : Nat :=
  match t.second / 3600 % 12 with
  | 0 => 12
  | h => h

/-- The field of a letter. -/
def fieldOf? (t : CivilTime) (c : Char) : Option String :=
  let hour := t.second / 3600
  let minute := t.second / 60 % 60
  let two := padded '0' 2
  let short (names : List String) (i : Nat) : String := String.ofList ((names.getD i "").toList.take 3)
  let date := padded '0' 4 t.year ++ "-" ++ two t.month ++ "-" ++ two t.day
  let clock := two hour ++ ":" ++ two minute ++ ":" ++ two (t.second % 60)
  match c with
  | 'Y' => some (padded '0' 4 t.year)
  | 'C' => some (two (t.year / 100))
  | 'y' => some (two (t.year % 100))
  | 'm' => some (two t.month)
  | 'b' | 'h' => some (short monthNames (t.month - 1))
  | 'B' => some (monthNames.getD (t.month - 1) "")
  | 'd' => some (two t.day)
  | 'e' => some (padded ' ' 2 t.day)
  | 'a' => some (short dayNames t.weekday)
  | 'A' => some (dayNames.getD t.weekday "")
  | 'w' => some (Decimal.intText t.weekday)
  | 'u' => some (Decimal.intText (if t.weekday = 0 then 7 else t.weekday))
  | 'U' => some (two ((t.yearDay + 6 - t.weekday) / 7))
  | 'W' => some (two ((t.yearDay + 6 - (t.weekday + 6) % 7) / 7))
  | 'G' => some (padded '0' 4 t.isoWeek.1)
  | 'g' => some (two (t.isoWeek.1 % 100))
  | 'V' => some (two t.isoWeek.2)
  | 'j' => some (padded '0' 3 t.yearDay)
  | 'D' | 'x' => some (two t.month ++ "/" ++ two t.day ++ "/" ++ two (t.year % 100))
  | 'F' => some date
  | 'v' => some (padded ' ' 2 t.day ++ "-" ++ short monthNames (t.month - 1) ++ "-"
      ++ padded '0' 4 t.year)
  | 'H' => some (two hour)
  | 'k' => some (padded ' ' 2 hour)
  | 'I' => some (two t.clockHour)
  | 'l' => some (padded ' ' 2 t.clockHour)
  | 'P' => some (if hour < 12 then "am" else "pm")
  | 'p' => some (if hour < 12 then "AM" else "PM")
  | 'M' => some (two minute)
  | 'S' => some (two (t.second % 60))
  | 'f' => some (padded '0' 9 t.nanos)
  | 'R' => some (two hour ++ ":" ++ two minute)
  | 'T' | 'X' => some clock
  | 'r' => some (two t.clockHour ++ ":" ++ two minute ++ ":" ++ two (t.second % 60)
      ++ (if hour < 12 then " AM" else " PM"))
  | 'c' => some (short dayNames t.weekday ++ " " ++ short monthNames (t.month - 1) ++ " "
      ++ padded ' ' 2 t.day ++ " " ++ clock ++ " " ++ padded '0' 4 t.year)
  | 'Z' => t.offset.map (offsetText ":")
  | 'z' => t.offset.map (offsetText "")
  | 's' => some (Decimal.intText (((t.dayNumber : Int) - (Instant.daysBeforeYear 1970 : Nat)) * 86400
      + t.second - t.offset.getD 0 * 60))
  | 't' => some "\t"
  | 'n' => some "\n"
  | '%' => some "%"
  | _ => none

/-- A number without the zeros or blanks in front of it, or with others. -/
def refill (mode : Char) (s : String) : String :=
  let ds := s.toList.dropWhile fun c => c = '0' || c = ' '
  let ds := if ds.isEmpty && s ≠ "" then ['0'] else ds
  let fill := if mode = '_' then ' ' else '0'
  if mode = '-' then String.ofList ds
  else String.ofList (List.replicate (s.length - ds.length) fill ++ ds)

/-- The fraction of the second with a point and a number of digits. -/
def fractionText (t : CivilTime) (width : Nat) : String :=
  "." ++ String.ofList ((padded '0' 9 t.nanos).toList.take width)

/-- Writes a time by a pattern; none if the pattern has a field that does not exist. -/
def layout? (t : CivilTime) : List Char → Option String
  | [] => some ""
  | '%' :: ':' :: 'z' :: rest => do
    let offset ← t.offset
    let tail ← layout? t rest
    return offsetText ":" offset ++ tail
  | '%' :: '+' :: rest => do
    let offset ← t.offset
    let date ← t.fieldOf? 'F'
    let clock ← t.fieldOf? 'T'
    let tail ← layout? t rest
    let fraction :=
      if t.nanos = 0 then "" else if t.nanos % TimeUnit.millisecond.nanos = 0 then t.fractionText 3
      else if t.nanos % TimeUnit.microsecond.nanos = 0 then t.fractionText 6 else t.fractionText 9
    return date ++ "T" ++ clock ++ fraction ++ offsetText ":" offset ++ tail
  | '%' :: '.' :: 'f' :: rest => do
    let tail ← layout? t rest
    let fraction :=
      if t.nanos = 0 then "" else if t.nanos % TimeUnit.millisecond.nanos = 0 then t.fractionText 3
      else if t.nanos % TimeUnit.microsecond.nanos = 0 then t.fractionText 6 else t.fractionText 9
    return fraction ++ tail
  | '%' :: '.' :: n :: 'f' :: rest => do
    if n = '3' || n = '6' || n = '9' then
      let tail ← layout? t rest
      return t.fractionText (n.toNat - '0'.toNat) ++ tail
    else none
  | '%' :: '-' :: c :: rest => do
    let field ← t.fieldOf? c
    let tail ← layout? t rest
    return refill '-' field ++ tail
  | '%' :: '_' :: c :: rest => do
    let field ← t.fieldOf? c
    let tail ← layout? t rest
    return refill '_' field ++ tail
  | '%' :: '0' :: c :: rest => do
    let field ← t.fieldOf? c
    let tail ← layout? t rest
    return refill '0' field ++ tail
  | ['%'] => none
  | '%' :: c :: rest => do
    let field ← t.fieldOf? c
    let tail ← layout? t rest
    return field ++ tail
  | c :: rest => do
    let tail ← layout? t rest
    return String.singleton c ++ tail

/-- The time written by a text: a timestamp with an offset, a date and time without one, or a
date. -/
def read? (text : String) : Option CivilTime :=
  if text.toList.contains 'T' then
    match Instant.read? text with
    | some t =>
      -- an instant does not keep its offset, so it is read again from the end
      let cs := text.toList
      let tail := if cs.getLast? = some 'Z' || cs.getLast? = some 'z' then cs.drop (cs.length - 1)
        else cs.drop (cs.length - 6)
      match Instant.offset tail with
      | some (minutes, _) => ofSeconds? t.seconds t.nanos (some minutes)
      | none => none
    | none =>
      -- without an offset the text is read as one in universal time
      match Instant.read? (text ++ "Z") with
      | some t => ofSeconds? t.seconds t.nanos none
      | none => none
  else
    match Instant.read? (text ++ "T00:00:00Z") with
    | some t => ofSeconds? t.seconds t.nanos none
    | none => none

end CivilTime

end ItemComposition
