import ItemComposition.Cache.Refresh
import ItemComposition.Storage.Error

/-!
# Storages and their order

A storage can refresh a store as a whole or for one template. Several storages are tried in
order: the first that succeeds ends the refresh, and only when all fail does the refresh fail.
What a storage has stored before it failed stays.
-/

namespace ItemComposition

/-- A source of templates with values `ν`, in surroundings `σ`. -/
structure Storage (ν σ : Type) where
  full : Cache.Refresh String ν σ (Except StorageError Unit)
  single : String → Cache.Refresh String ν σ (Except StorageError Unit)

namespace Storage

variable {ν σ : Type}

/-- The failure of a refresh in which every storage failed. -/
def failure : List StorageError → StorageError
  | [e] => e
  | errors => .allBackendsFailed errors

/-- Tries refreshes in order; `failed` are the errors of earlier ones. -/
def firstOf (failed : List StorageError) :
    List (Cache.Refresh String ν σ (Except StorageError Unit)) →
    Cache.Refresh String ν σ (Except StorageError Unit)
  | [] => pure (.error (failure failed))
  | r :: rest => do
    match ← r with
    | .ok () => pure (.ok ())
    | .error e => firstOf (failed ++ [e]) rest

/-- The refresh of everything from the first storage that succeeds. -/
def fullOf (backends : List (Storage ν σ)) :
    Cache.Refresh String ν σ (Except StorageError Unit) :=
  firstOf [] (backends.map Storage.full)

/-- The refresh of one template from the first storage that succeeds. -/
def singleOf (backends : List (Storage ν σ)) (id : String) :
    Cache.Refresh String ν σ (Except StorageError Unit) :=
  firstOf [] (backends.map fun b => b.single id)

/-- Storages as the source of a cache. -/
def source (backends : List (Storage ν σ)) : Cache.Source String ν σ where
  full := do return (← fullOf backends).mapError StorageError.chain
  single := fun id => do return (← singleOf backends id).mapError StorageError.chain

end Storage

end ItemComposition
