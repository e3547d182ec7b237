import ItemComposition.Cache.Entry

/-!
# Bounded stores as recency lists

The plain picture of a bounded store: its entries in the order of their last use, the least
recently used first. Every operation is an equation on that list. `LruStore` keeps the same
store in linked slots; this is what it is compared with.

## Key results

- `RecencyStore.size_set_le` / `RecencyStore.size_get_le`: a write and a look-up keep the number
  of entries within the capacity
-/

namespace ItemComposition.Cache

universe u v

/-- A bounded store: its entries, the least recently used first. -/
structure RecencyStore (κ : Type u) (ν : Type v) where
  capacity : Nat
  ttl : Nat
  entries : List (Entry κ ν)
  deriving Repr, DecidableEq

namespace RecencyStore

variable {κ : Type u} {ν : Type v} [DecidableEq κ]

/-- The store that holds nothing. -/
def empty (capacity ttl : Nat) : RecencyStore κ ν := ⟨capacity, ttl, []⟩

/-- The number of entries. -/
def size (s : RecencyStore κ ν) : Nat := s.entries.length

/-- The entry of a key, whatever its age. -/
def find? (s : RecencyStore κ ν) (key : κ) : Option (Entry κ ν) :=
  s.entries.find? (·.key = key)

/-- The entries of the other keys, in order. -/
def others (s : RecencyStore κ ν) (key : κ) : List (Entry κ ν) :=
  s.entries.filter (·.key ≠ key)

/-- Stores a value as the most recently used. A new key drops the least recently used entry when
the store is full, and with capacity zero nothing is stored. -/
def set (s : RecencyStore κ ν) (key : κ) (value : ν) (stamp : Int) : RecencyStore κ ν :=
  let added : Entry κ ν := ⟨key, value, stamp⟩
  if s.capacity = 0 then s
  else if (s.find? key).isSome then { s with entries := s.others key ++ [added] }
  else if s.capacity ≤ s.size then { s with entries := s.entries.tail ++ [added] }
  else { s with entries := s.entries ++ [added] }

/-- Looks a key up. An entry as old as the lifetime is dropped and not served; one that is served
becomes the most recently used. -/
def get (s : RecencyStore κ ν) (key : κ) (now : Int) : RecencyStore κ ν × Option ν :=
  match s.find? key with
  | none => (s, none)
  | some e =>
    if s.ttl ≤ age e.stamp now then ({ s with entries := s.others key }, none)
    else ({ s with entries := s.others key ++ [e] }, some e.value)

/-- The stamp of a key's entry, whatever its age. Nothing counts as used. -/
def lastUpdated? (s : RecencyStore κ ν) (key : κ) : Option Int := (s.find? key).map (·.stamp)

/-- Drops the entries older than the lifetime and tells their number. -/
def cleanUp (s : RecencyStore κ ν) (now : Int) : RecencyStore κ ν × Nat :=
  let kept := s.entries.filter (fun e => age e.stamp now ≤ s.ttl)
  ({ s with entries := kept }, s.entries.length - kept.length)

/-- The entry of a key is not among the others. -/
theorem length_others_lt {s : RecencyStore κ ν} {key : κ} (h : (s.find? key).isSome) :
    (s.others key).length < s.size := by
  unfold others size
  rw [List.length_filter_lt_length_iff_exists]
  obtain ⟨e, he⟩ := Option.isSome_iff_exists.1 h
  exact ⟨e, List.mem_of_find?_eq_some he, by simpa using List.find?_some he⟩

/-- A write keeps the number of entries within the capacity. -/
theorem size_set_le {s : RecencyStore κ ν} (h : s.size ≤ s.capacity) (key : κ) (value : ν)
    (stamp : Int) : (s.set key value stamp).size ≤ s.capacity := by
  unfold set
  simp only []
  split
  · exact h
  · split
    · rename_i hk
      -- the key is stored, so the others are fewer than all
      have hlt := length_others_lt hk
      simp only [size, List.length_append, List.length_singleton] at *
      omega
    · split
      · simp only [size, List.length_append, List.length_singleton, List.length_tail] at *
        omega
      · simp only [size, List.length_append, List.length_singleton] at *
        omega

/-- A look-up keeps the number of entries within the capacity. -/
theorem size_get_le {s : RecencyStore κ ν} (h : s.size ≤ s.capacity) (key : κ) (now : Int) :
    (s.get key now).1.size ≤ s.capacity := by
  unfold get
  split
  · exact h
  · rename_i e he
    have hlt := length_others_lt (Option.isSome_of_eq_some he)
    split
    · simp only [size] at *
      omega
    · simp only [size, List.length_append, List.length_singleton] at *
      omega

omit [DecidableEq κ] in
/-- A sweep adds no entries. -/
theorem size_cleanUp_le (s : RecencyStore κ ν) (now : Int) :
    (s.cleanUp now).1.size ≤ s.size := List.length_filter_le ..

end RecencyStore

end ItemComposition.Cache
