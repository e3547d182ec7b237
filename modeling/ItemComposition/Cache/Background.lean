import ItemComposition.Cache.Entry

/-!
# Unbounded stores

An unbounded store serves an entry whatever its age; only a sweep drops entries, once they are
older than ten lifetimes. So a value is kept through refreshes that fail.

## Key results

- `BackgroundStore.get_set_self` / `BackgroundStore.get_set_of_ne`: a look-up after a write
-/

namespace ItemComposition.Cache

universe u v

/-- An unbounded store: one entry a key. -/
structure BackgroundStore (κ : Type u) (ν : Type v) where
  ttl : Nat
  entries : List (Entry κ ν)
  deriving Repr, DecidableEq

namespace BackgroundStore

variable {κ : Type u} {ν : Type v} [DecidableEq κ]

/-- The store that holds nothing. -/
def empty (ttl : Nat) : BackgroundStore κ ν := ⟨ttl, []⟩

/-- The number of entries. -/
def size (s : BackgroundStore κ ν) : Nat := s.entries.length

/-- The age up to which a sweep keeps an entry: ten lifetimes. -/
def expiry (s : BackgroundStore κ ν) : Nat := min (10 * s.ttl) longestDuration

/-- The entry of a key. -/
def find? (s : BackgroundStore κ ν) (key : κ) : Option (Entry κ ν) :=
  s.entries.find? (·.key = key)

/-- Stores a value, over an earlier one. -/
def set (s : BackgroundStore κ ν) (key : κ) (value : ν) (stamp : Int) : BackgroundStore κ ν :=
  { s with entries := ⟨key, value, stamp⟩ :: s.entries.filter (·.key ≠ key) }

/-- Looks a key up, whatever the age of its entry. -/
def get (s : BackgroundStore κ ν) (key : κ) : Option ν := (s.find? key).map (·.value)

/-- The stamp of a key's entry. -/
def lastUpdated? (s : BackgroundStore κ ν) (key : κ) : Option Int := (s.find? key).map (·.stamp)

/-- Drops the entries older than ten lifetimes and tells their number. -/
def cleanUp (s : BackgroundStore κ ν) (now : Int) : BackgroundStore κ ν × Nat :=
  let kept := s.entries.filter (fun e => age e.stamp now ≤ s.expiry)
  ({ s with entries := kept }, s.entries.length - kept.length)

@[simp] theorem find?_set_self (s : BackgroundStore κ ν) (key : κ) (value : ν) (stamp : Int) :
    (s.set key value stamp).find? key = some ⟨key, value, stamp⟩ := by
  simp [set, find?]

theorem find?_set_of_ne (s : BackgroundStore κ ν) {key other : κ} (value : ν) (stamp : Int)
    (h : other ≠ key) : (s.set key value stamp).find? other = s.find? other := by
  unfold set find?
  rw [List.find?_cons_of_neg (by simpa using h.symm), List.find?_filter]
  congr 1
  funext e
  by_cases he : e.key = other <;> simp [he, h]

@[simp] theorem get_set_self (s : BackgroundStore κ ν) (key : κ) (value : ν) (stamp : Int) :
    (s.set key value stamp).get key = some value := by simp [get]

theorem get_set_of_ne (s : BackgroundStore κ ν) {key other : κ} (value : ν) (stamp : Int)
    (h : other ≠ key) : (s.set key value stamp).get other = s.get other := by
  simp [get, find?_set_of_ne s value stamp h]

end BackgroundStore

end ItemComposition.Cache
