import ItemComposition.Decimal.Shortest

/-!
# The text of numbers

A `Style` says how the digits of a decimal are laid out: which powers of ten are written
positionally, and what an exponent looks like. The digits themselves come from
`Decimal.Shortest`.
-/

namespace ItemComposition.Decimal

/-- How a finite number is laid out. -/
structure Style where
  /-- The powers of ten of the leading digit that are written without an exponent; all, if absent. -/
  positional : Option (Int × Int)
  /-- Whether a whole number keeps one zero after the point. -/
  pointZero : Bool
  /-- Whether a positive exponent carries a plus sign. -/
  plusSign : Bool

/-- Numbers in JSON text: `2.0`, `0.00001`, `1e-6`, `1e+16`. -/
def Style.json : Style := ⟨some (-5, 15), true, true⟩

/-- Numbers in diagnostics: `2.0`, `0.0001`, `1e-5`, `1e16`. -/
def Style.diagnostic : Style := ⟨some (-4, 15), true, false⟩

/-- Numbers in running text: never an exponent, no point for a whole number. -/
def Style.plain : Style := ⟨none, false, false⟩

/-- The decimal digits of a natural number. -/
def natDigits (n : Nat) : List Char := Nat.toDigits 10 n

/-- The decimal digits of an integer, with a minus sign below zero. -/
def intText (n : Int) : String :=
  match n with
  | .ofNat n => String.ofList (natDigits n)
  | .negSucc n => String.ofList ('-' :: natDigits (n + 1))

/-- A number written without an exponent. -/
def positionalText (pointZero : Bool) (d : Scientific) : List Char :=
  let digits := natDigits d.digits
  match d.exponent with
  | .ofNat e =>
    digits ++ List.replicate e '0' ++ (if pointZero then ['.', '0'] else [])
  | .negSucc e =>
    let places := e + 1
    -- there are no digits left in front of the point, so a zero stands there
    if digits.length ≤ places then
      '0' :: '.' :: (List.replicate (places - digits.length) '0' ++ digits)
    else
      digits.take (digits.length - places) ++ '.' :: digits.drop (digits.length - places)

/-- A number written with one digit before the point and an exponent. -/
def exponentialText (plusSign : Bool) (d : Scientific) : List Char :=
  let lead := match natDigits d.digits with
    | [] => []
    | [c] => [c]
    | c :: rest => c :: '.' :: rest
  let sign := if plusSign && 0 ≤ d.magnitude then ['+'] else []
  lead ++ 'e' :: sign ++ (intText d.magnitude).toList

/-- A positive decimal in a style. -/
def Style.render (style : Style) (d : Scientific) : List Char :=
  match style.positional with
  | none => positionalText style.pointZero d
  | some (low, high) =>
    if low ≤ d.magnitude && d.magnitude ≤ high then positionalText style.pointZero d
    else exponentialText style.plusSign d

/-- A double in a style. -/
def Style.float (style : Style) (x : Float) : String :=
  match Binary64.parts x with
  | .nan => "NaN"
  | .infinite negative => if negative then "-inf" else "inf"
  | .finite negative m e =>
    let body :=
      if m = 0 then (if style.pointZero then ['0', '.', '0'] else ['0'])
      else style.render (Shortest.ofDyadic m e)
    String.ofList (if negative then '-' :: body else body)

end ItemComposition.Decimal
