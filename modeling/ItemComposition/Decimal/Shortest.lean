import ItemComposition.Binary64

/-!
# The fewest decimal digits that read back

`Shortest.ofDyadic m e` finds, for the positive double `m · 2 ^ e`, the shortest decimal that
rounds to it and among those the one nearest to it. The reals that round to the double form an
interval, its ends included exactly when the mantissa is even. On the grid of `n`-digit decimals
only the two neighbours of the value can lie in it, so it is enough to test these for
`n = 1, 2, …`; seventeen digits always suffice.
-/

namespace ItemComposition.Decimal

/-- The positive decimal `digits · 10 ^ exponent`. -/
structure Scientific where
  digits : Nat
  exponent : Int
  deriving DecidableEq, Repr

namespace Scientific

/-- How many digits a number has; zero has one. -/
def digitCount (n : Nat) : Nat := (Nat.toDigits 10 n).length

/-- The power of ten of the leading digit. -/
def magnitude (d : Scientific) : Int := d.exponent + (digitCount d.digits : Int) - 1

/-- Moves trailing zeros of the digits into the exponent, at most `limit` of them. -/
def stripZeros (limit : Nat) (d : Scientific) : Scientific :=
  match limit with
  | 0 => d
  | limit + 1 =>
    if d.digits % 10 = 0 then stripZeros limit ⟨d.digits / 10, d.exponent + 1⟩ else d

end Scientific

namespace Shortest

/-- A positive rational interval around `value`, all three over one denominator. -/
structure Interval where
  low : Nat
  value : Nat
  high : Nat
  denominator : Nat
  closed : Bool

/-- The reals that round to `m · 2 ^ e`, in quarters of a unit in the last place. Below a power
of two the gap is half as wide. -/
def interval (m : Nat) (e : Int) : Interval :=
  let narrow := m = Nat.pow 2 52 ∧ -1074 < e
  let low := if narrow then 4 * m - 1 else 4 * m - 2
  match e - 2 with
  | .ofNat k => ⟨low <<< k, (4 * m) <<< k, (4 * m + 2) <<< k, 1, m % 2 = 0⟩
  | .negSucc k => ⟨low, 4 * m, 4 * m + 2, Nat.pow 2 (k + 1), m % 2 = 0⟩

/-- Whether `d · 10 ^ k` lies in the interval. -/
def Interval.holds (i : Interval) (d : Nat) (k : Int) : Bool :=
  let (num, den) := match k with
    | .ofNat k => (d * Nat.pow 10 k * i.denominator, 1)
    | .negSucc k => (d * i.denominator, Nat.pow 10 (k + 1))
  let low := i.low * den
  let high := i.high * den
  if i.closed then low ≤ num ∧ num ≤ high else low < num ∧ num < high

/-- The least `k` with value below `10 ^ k`. -/
def Interval.scale (i : Interval) : Int :=
  if i.denominator ≤ i.value then Scientific.digitCount (i.value / i.denominator)
  else 1 - (Scientific.digitCount (i.denominator / i.value) : Int)

/-- The decimal just below the value on the grid `10 ^ k`, and twice the distance to it compared
with the distance to its successor: whether the successor is nearer. -/
def Interval.below (i : Interval) (k : Int) : Nat × Bool :=
  let (num, den) := match k with
    | .ofNat k => (i.value, i.denominator * Nat.pow 10 k)
    | .negSucc k => (i.value * Nat.pow 10 (k + 1), i.denominator)
  let d := num / den
  let twice := 2 * (num % den)
  (d, twice > den || (twice = den && d % 2 = 1))

/-- The best decimal with `n` digits, if one lies in the interval. -/
def Interval.candidate (i : Interval) (n : Nat) : Option Scientific :=
  let k := i.scale - n
  let (d, upper) := i.below k
  let lowFits := 0 < d && i.holds d k
  let highFits := i.holds (d + 1) k
  if lowFits && highFits then some ⟨if upper then d + 1 else d, k⟩
  else if lowFits then some ⟨d, k⟩
  else if highFits then some ⟨d + 1, k⟩
  else none

/-- Tries grids of more and more digits. -/
def Interval.search (i : Interval) (n : Nat) (more : Nat) : Scientific :=
  match more with
  | 0 => let k := i.scale - n; ⟨(i.below k).1, k⟩
  | more + 1 => (i.candidate n).getD (i.search (n + 1) more)

/-- The shortest decimal that rounds to `m · 2 ^ e`. -/
def ofDyadic (m : Nat) (e : Int) : Scientific :=
  ((interval m e).search 1 17).stripZeros 20

end Shortest

end ItemComposition.Decimal
