import ItemComposition.Cache.Background
import ItemComposition.Cache.Lru
import ItemComposition.Cache.Options

/-!
# Stores of either policy

What a cache holds its entries in: an unbounded or a bounded store, by its policy, under one set
of operations. Every operation that depends on ages is told the moment it happens at.
-/

namespace ItemComposition.Cache

universe u v

/-- A store of one of the two policies. -/
inductive Store (κ : Type u) (ν : Type v) where
  | background (store : BackgroundStore κ ν)
  | lru (store : LruStore κ ν)
  deriving Repr, DecidableEq

namespace Store

variable {κ : Type u} {ν : Type v} [DecidableEq κ]

omit [DecidableEq κ] in
/-- The empty store of a policy; the capacity bounds only the bounded one. -/
def empty (policy : EvictionPolicy) (ttl capacity : Nat) : Store κ ν :=
  match policy with
  | .background => .background (.empty ttl)
  | .lru => .lru (.empty capacity ttl)

omit [DecidableEq κ] in
/-- The number of entries. -/
def size : Store κ ν → Nat
  | background s => s.size
  | lru s => s.size

/-- Stores a value, over an earlier one. -/
def set (s : Store κ ν) (key : κ) (value : ν) (stamp : Int) : Store κ ν :=
  match s with
  | background s => background (s.set key value stamp)
  | lru s => lru (s.set key value stamp)

/-- Looks a key up. A bounded store also notes the use, and drops an entry that is too old. -/
def get (s : Store κ ν) (key : κ) (now : Int) : Store κ ν × Option ν :=
  match s with
  | background s => (background s, s.get key)
  | lru s => ((s.get key now).map lru id)

/-- The stamp of a key's entry, whatever its age. -/
def lastUpdated? (s : Store κ ν) (key : κ) : Option Int :=
  match s with
  | background s => s.lastUpdated? key
  | lru s => s.lastUpdated? key

/-- Drops the entries that are too old for the policy and tells their number. -/
def cleanUp (s : Store κ ν) (now : Int) : Store κ ν × Nat :=
  match s with
  | background s => (s.cleanUp now).map background id
  | lru s => (s.cleanUp now).map lru id

end Store

end ItemComposition.Cache
