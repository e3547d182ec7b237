/-!
# Words of a given number of bits

A word of `n` bits tells `2 ^ n` values apart: the numbers from `0` on, or as many numbers on both
sides of zero. Powers are applications of `Nat.pow` throughout the library, so that they have one
meaning whatever a module imports.
-/

namespace ItemComposition.Word

/-- How many values a word tells apart. -/
def size (bits : Nat) : Nat := Nat.pow 2 bits

/-- The numbers of words without a sign. -/
def isUnsigned (bits : Nat) (n : Int) : Bool := 0 ≤ n && n < size bits

/-- The numbers of words with a sign: half of them are negative. -/
def isSigned (bits : Nat) (n : Int) : Bool := -(size (bits - 1) : Int) ≤ n && n < size (bits - 1)

/-- The least number of a word with a sign. -/
def least (bits : Nat) : Int := -(size (bits - 1) : Int)

/-- The greatest number of a word with a sign. -/
def greatest (bits : Nat) : Int := (size (bits - 1) : Int) - 1

end ItemComposition.Word
