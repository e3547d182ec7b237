import ItemComposition.Word

/-!
# Double-precision numbers as exact dyadic values

A finite double is `± mantissa · 2 ^ exponent`. Everything that has to be exact about doubles
(whether one is a whole number, its digits, its remainder) is computed here on the mantissa and
the exponent, so that no rounding can enter.
-/

namespace ItemComposition.Binary64

/-- What a double stands for: `finite n m e` is `m · 2 ^ e`, negated if `n` is set. -/
inductive Parts where
  | nan
  | infinite (negative : Bool)
  | finite (negative : Bool) (mantissa : Nat) (exponent : Int)
  deriving DecidableEq, Repr

/-- Reads sign, mantissa and exponent off the bit pattern. -/
def parts (x : Float) : Parts :=
  let bits := x.toBits.toNat
  let negative := bits / Nat.pow 2 63 = 1
  let biased : Nat := bits / Nat.pow 2 52 % 2048
  let fraction := bits % Nat.pow 2 52
  if biased = 2047 then
    if fraction = 0 then .infinite negative else .nan
  else if biased = 0 then .finite negative fraction (-1074)
  else .finite negative (Nat.pow 2 52 + fraction) ((biased : Int) - 1075)

/-- Applies a sign to a magnitude. -/
def signed (negative : Bool) (magnitude : Nat) : Int :=
  if negative then -(magnitude : Int) else magnitude

/-- The power of two `2 ^ e`, for exponents from `-1074` to `1023`. -/
def powerOfTwo (e : Int) : Float :=
  if -1022 ≤ e then Float.ofBits ((e + 1023).toNat.toUInt64 <<< 52)
  else Float.ofBits (1 <<< (e + 1074).toNat.toUInt64)

/-- A whole number of at most 53 bits as a double. -/
def ofSmallNat (n : Nat) : Float := n.toUInt64.toFloat

/-- The double nearest to a whole number; a tie goes to the even neighbour. -/
def ofInt (n : Int) : Float := Float.ofInt n

/-- The number truncated toward zero; none for infinities and not-a-number. -/
def truncate? (x : Float) : Option Int :=
  match parts x with
  | .finite negative m (.ofNat e) => some (signed negative (m <<< e))
  | .finite negative m (.negSucc e) => some (signed negative (m >>> (e + 1)))
  | _ => none

/-- Whether a finite double has no fractional part. -/
def isWhole (x : Float) : Bool :=
  match parts x with
  | .finite _ _ (.ofNat _) => true
  | .finite _ m (.negSucc e) => m % Nat.pow 2 (e + 1) = 0
  | _ => false

/-- The value of a double that is a whole number. -/
def toInt? (x : Float) : Option Int := if isWhole x then truncate? x else none

/-- The nearest whole number, halves away from zero; none for infinities and not-a-number. -/
def round? (x : Float) : Option Int :=
  match parts x with
  | .finite negative m (.ofNat e) => some (signed negative (m <<< e))
  | .finite negative m (.negSucc e) => some (signed negative ((m + Nat.pow 2 e) >>> (e + 1)))
  | _ => none

/-- The greatest whole number not above; none for infinities and not-a-number. -/
def floor? (x : Float) : Option Int :=
  match truncate? x with
  | some n => some (if !isWhole x && x < 0 then n - 1 else n)
  | none => none

/-- The least whole number not below; none for infinities and not-a-number. -/
def ceil? (x : Float) : Option Int :=
  match truncate? x with
  | some n => some (if !isWhole x && 0 < x then n + 1 else n)
  | none => none

/-- Drops factors of two from a mantissa, at most `limit` of them, and counts them. -/
def stripTwos (limit : Nat) (m : Nat) (count : Nat) : Nat × Nat :=
  match limit with
  | 0 => (m, count)
  | limit + 1 => if m % 2 = 0 then stripTwos limit (m / 2) (count + 1) else (m, count)

/-- The double `m · 2 ^ e` for a value that some double holds exactly. -/
def ofDyadic (m : Nat) (e : Int) : Float :=
  if m = 0 then 0
  else
    let (odd, twos) := stripTwos m.log2 m 0
    ofSmallNat odd * powerOfTwo (e + twos)

/-- The not-a-number result of an undefined operation. -/
def nan : Float := 0 / 0

/-- The remainder of a division whose quotient is truncated toward zero. The result is exact and
has the sign of the dividend. -/
def remainder (x y : Float) : Float :=
  match parts x, parts y with
  | .finite negative m e, .finite _ n f =>
    if n = 0 then nan
    else
      -- both mantissas at the smaller exponent, where the remainder of whole numbers is exact
      let low := min e f
      let r := (m <<< (e - low).toNat) % (n <<< (f - low).toNat)
      let magnitude := ofDyadic r low
      if negative then -magnitude else magnitude
  -- nothing finite divides by infinity, so the number itself remains
  | .finite _ _ _, .infinite _ => x
  | _, _ => nan

/-- Clamps a whole number to the signed 64-bit range. -/
def clampInt64 (n : Int) : Int := max (Word.least 64) (min (Word.greatest 64) n)

/-- Truncation to the signed 64-bit range: what does not fit is clamped, not-a-number is `0`. -/
def toInt64 (x : Float) : Int :=
  match parts x with
  | .nan => 0
  | .infinite negative => if negative then Word.least 64 else Word.greatest 64
  | .finite .. => clampInt64 ((truncate? x).getD 0)

/-- A double raised to a whole power by repeated squaring, one rounding per product. -/
def power (base : Float) (exponent : Nat) : Float := go exponent base 1
where
  go (n : Nat) (square acc : Float) : Float :=
    if n = 0 then acc
    else
      let acc := if n % 2 = 1 then acc * square else acc
      if n / 2 = 0 then acc else go (n / 2) (square * square) acc
  termination_by n

end ItemComposition.Binary64
