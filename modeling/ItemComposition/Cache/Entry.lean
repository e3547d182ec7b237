import ItemComposition.Time.Unit
import ItemComposition.Word

/-!
# Entries of a store and their ages

A moment is a number of nanoseconds of the wall clock, counted from a fixed moment; it may be
negative. An age is a duration in nanoseconds and never negative: an entry stamped in the future
has age zero.
-/

namespace ItemComposition.Cache

/-- The age of what was stamped at `stamp`, at the moment `now`. -/
def age (stamp now : Int) : Nat := (now - stamp).toNat

/-- The longest duration that can be told: `2 ^ 64` seconds less a nanosecond. -/
def longestDuration : Nat := Word.size 64 * TimeUnit.second.nanos - 1

universe u v

/-- What a store holds under a key: a value and the moment it is up to date with. -/
structure Entry (κ : Type u) (ν : Type v) where
  key : κ
  value : ν
  stamp : Int
  deriving Repr, DecidableEq

theorem age_eq_zero_of_le {stamp now : Int} (h : now ≤ stamp) : age stamp now = 0 := by
  unfold age; omega

/-- Ages grow with the clock. -/
theorem age_le_age {stamp now later : Int} (h : now ≤ later) : age stamp now ≤ age stamp later := by
  unfold age; omega

end ItemComposition.Cache
