import ItemComposition.Time.Unit

/-!
# Options of a cache
-/

namespace ItemComposition

/-- How entries leave a cache. -/
inductive EvictionPolicy where
  /-- Without a bound: refreshed as a whole, and swept at ten times the lifetime. -/
  | background
  /-- With a bound: the least recently used entry makes room, and entries end with the lifetime. -/
  | lru
  deriving DecidableEq, Repr

/-- The label of a policy. -/
def EvictionPolicy.label : EvictionPolicy → String
  | background => "background_cache"
  | lru => "lru_cache"

/-- The options of a cache. Durations are in nanoseconds. -/
structure CacheOptions where
  name : String
  policy : EvictionPolicy
  ttl : Nat
  /-- The bound of the `lru` policy; with zero nothing is kept. -/
  capacity : Nat
  deriving DecidableEq, Repr

/-- The options of a cache that is given none. -/
def CacheOptions.standard : CacheOptions where
  name := "default"
  policy := .background
  ttl := 30 * TimeUnit.second.nanos
  capacity := 0

end ItemComposition
