import ItemComposition.Binary64
import ItemComposition.Decimal.Text
import ItemComposition.Text.Blank
import ItemComposition.Text.Quoted
import ItemComposition.Time.Unit
import ItemComposition.Word

/-!
# Written durations

`Amount.readAll?` reads texts such as `1h30m`: a sign and numbers with units, whose sum in
nanoseconds is rounded to a whole number. `durationText` writes a duration in its largest unit.
-/

namespace ItemComposition

/-- Why a text is no duration. -/
inductive DurationError where
  | invalid (text : String)
  | missingUnit (text : String)
  | unknownUnit (unit text : String)
  deriving DecidableEq, Repr

/-- The wording of an error. -/
def DurationError.message : DurationError → String
  | invalid text => "invalid duration " ++ Text.quoted text
  | missingUnit text => "missing unit in duration " ++ Text.quoted text
  | unknownUnit unit text =>
    "unknown unit " ++ Text.quoted unit ++ " in duration " ++ Text.quoted text

/-- A number with a unit. The number is `digits / 10 ^ places`. -/
structure Amount where
  digits : Nat
  places : Nat
  unit : TimeUnit
  deriving DecidableEq, Repr

namespace Amount

/-- Characters of numbers. -/
def isNumberChar (c : Char) : Bool := c.isDigit || c = '.'

/-- The number written by decimal digits. -/
def digitsValue (cs : List Char) : Nat :=
  cs.foldl (fun n c => n * 10 + (c.toNat - '0'.toNat)) 0

/-- Reads digits with at most one point and at least one digit: their value without the point, and
how many stand after it. -/
def readNumber? (cs : List Char) : Option (Nat × Nat) :=
  let whole := cs.takeWhile Char.isDigit
  match cs.dropWhile Char.isDigit with
  | [] => if whole.isEmpty then none else some (digitsValue whole, 0)
  | _ :: fraction =>
    if fraction.all Char.isDigit && !(whole ++ fraction).isEmpty then
      some (digitsValue (whole ++ fraction), fraction.length)
    else none

/-- Reads amounts until the text ends; `text` is the whole text, for messages. -/
def readMany (text : String) (cs : List Char) : Except DurationError (List Amount) :=
  match cs with
  | [] => .ok []
  | c :: rest =>
    let number := (c :: rest).takeWhile isNumberChar
    let after := (c :: rest).dropWhile isNumberChar
    match readNumber? number with
    | none => .error (.invalid text)
    | some (digits, places) =>
      let unit := String.ofList (after.takeWhile (!isNumberChar ·))
      match TimeUnit.read? unit with
      | none => .error (if unit = "" then .missingUnit text else .unknownUnit unit text)
      | some u =>
        if _h : after.length < (c :: rest).length then
          match readMany text (after.dropWhile (!isNumberChar ·)) with
          | .ok amounts => .ok (⟨digits, places, u⟩ :: amounts)
          | .error e => .error e
        else .error (.invalid text)
termination_by cs.length
decreasing_by
  exact Nat.lt_of_le_of_lt (List.dropWhile_suffix _).length_le _h

/-- The amount in nanoseconds, with one rounding for the number and one for the product. -/
def toFloat (a : Amount) : Float :=
  Float.ofScientific a.digits true a.places * Binary64.ofInt a.unit.nanos

/-- The greatest whole number of 127 bits. -/
def maxNanos : Int := Word.greatest 128

/-- A sum in nanoseconds as a whole number, halves away from zero and clamped. -/
def roundNanos (x : Float) : Int := min maxNanos ((Binary64.round? x).getD maxNanos)

/-- The sum of amounts in nanoseconds. -/
def sum (amounts : List Amount) : Int :=
  roundNanos (amounts.foldl (fun total a => total + a.toFloat) 0)

/-- Reads a written duration as nanoseconds. -/
def readAll? (text : String) : Except DurationError Int :=
  let text := Text.trim text
  let (negative, body) := match text.toList with
    | '-' :: rest => (true, rest)
    | '+' :: rest => (false, rest)
    | cs => (false, cs)
  -- zero is the one number that needs no unit
  match body with
  | ['0'] => .ok 0
  | [] => .error (.invalid text)
  | body =>
    match readMany text body with
    | .ok amounts => .ok (if negative then -(sum amounts) else sum amounts)
    | .error e => .error e

end Amount

/-- A number of units and the rest as a decimal fraction without zeros at its end. -/
def fractionalText (nanos unit : Nat) (sign : String) : String :=
  let places := (Decimal.natDigits unit).length - 1
  let rest := Decimal.natDigits (nanos % unit)
  let padded := List.replicate (places - rest.length) '0' ++ rest
  let kept := (padded.reverse.dropWhile (· = '0')).reverse
  let fraction := if kept.isEmpty || places = 0 then "" else "." ++ String.ofList kept
  String.ofList (Decimal.natDigits (nanos / unit)) ++ fraction ++ sign

/-- A duration in the largest of seconds, milliseconds, microseconds and nanoseconds that it
fills. -/
def durationText (nanos : Nat) : String :=
  if TimeUnit.second.nanos ≤ nanos then fractionalText nanos TimeUnit.second.nanos "s"
  else if TimeUnit.millisecond.nanos ≤ nanos then fractionalText nanos TimeUnit.millisecond.nanos "ms"
  else if TimeUnit.microsecond.nanos ≤ nanos then fractionalText nanos TimeUnit.microsecond.nanos "\u00b5s"
  else fractionalText nanos 1 "ns"

end ItemComposition
