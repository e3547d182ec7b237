import ItemComposition.Binary64

/-!
# Reading numbers

Whole numbers in any base up to thirty-six, and decimal numbers with an optional point and
exponent. A decimal number is the double nearest to what is written.
-/

namespace ItemComposition.Decimal

/-- A sign in front of digits: whether it is a minus, and what follows it. -/
def takeSign : List Char → Bool × List Char
  | '-' :: rest => (true, rest)
  | '+' :: rest => (false, rest)
  | cs => (false, cs)

/-- The value of a digit in a base. -/
def digitValue? (base : Nat) (c : Char) : Option Nat :=
  let v := if c.isDigit then some (c.toNat - '0'.toNat)
    else if c.isAlpha then some (c.toLower.toNat - 'a'.toNat + 10) else none
  v.filter (· < base)

/-- The number that digits stand for; there must be at least one. -/
def readDigits? (base : Nat) (cs : List Char) : Option Nat :=
  if cs.isEmpty then none
  else cs.foldlM (fun n c => (digitValue? base c).map (n * base + ·)) 0

/-- A whole number with an optional sign. -/
def readInt? (base : Nat) (cs : List Char) : Option Int :=
  let (negative, digits) := takeSign cs
  (readDigits? base digits).map (Binary64.signed negative)

/-- The number that decimal digits stand for. -/
def digitsValue (ds : List Char) : Nat := ds.foldl (fun n c => n * 10 + (c.toNat - '0'.toNat)) 0

/-- The largest exponent that is told apart; beyond it every number is zero or infinite. -/
def maxExponent : Nat := 100000

/-- An exponent; absent, it is zero. -/
def readExponent? : List Char → Option Int
  | [] => some 0
  | e :: rest =>
    let (down, digits) := takeSign rest
    if (e = 'e' || e = 'E') && !digits.isEmpty && digits.all Char.isDigit then
      some (Binary64.signed down (min (digitsValue digits) maxExponent))
    else none

/-- A decimal number without a sign: digits on at least one side of an optional point, and an
optional exponent. -/
def readUnsigned? (cs : List Char) : Option Float :=
  let whole := cs.takeWhile Char.isDigit
  let rest := cs.dropWhile Char.isDigit
  let (fraction, rest) := match rest with
    | '.' :: rest => (rest.takeWhile Char.isDigit, rest.dropWhile Char.isDigit)
    | rest => ([], rest)
  -- digits on one side of the point are enough
  if whole.isEmpty && fraction.isEmpty then none
  else
    (readExponent? rest).map fun e =>
      let scale : Int := e - fraction.length
      let m := digitsValue (whole ++ fraction)
      if 0 ≤ scale then Float.ofScientific m false scale.toNat
      else Float.ofScientific m true (-scale).toNat

/-- A decimal number with an optional sign, or a name of infinity or not-a-number. -/
def readFloat? (cs : List Char) : Option Float :=
  let (negative, body) := takeSign cs
  let word := (String.ofList body).toLower
  let x? := if word = "inf" || word = "infinity" then some (1 / 0)
    else if word = "nan" then some Binary64.nan
    else readUnsigned? body
  x?.map fun x => if negative then -x else x

end ItemComposition.Decimal
