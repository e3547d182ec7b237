import ItemComposition.Provider.Basic

/-!
# The registry of providers

Providers under their names. Each registration gets a generation of its own, larger than all
before; a registration under a name that is taken replaces the provider that has it, which the
registering party then closes.
-/

namespace ItemComposition

/-- A provider with the generation of its registration. -/
structure Registered (ε : Type) where
  provider : Provider ε
  generation : Nat

/-- Providers by name. -/
structure Registry (ε : Type) where
  entries : Dict (Registered ε)
  /-- The generation of the latest registration. -/
  latest : Nat

/-- A registry after a registration, with its generation and the provider that it replaced. -/
structure Registration (ε : Type) where
  registry : Registry ε
  generation : Nat
  replaced : Option (Registered ε)

namespace Registry

variable {ε : Type}

/-- The registry without providers. -/
def empty : Registry ε := ⟨[], 0⟩

/-- The provider of a name. -/
def get? (r : Registry ε) (name : String) : Option (Registered ε) := Dict.get? r.entries name

/-- The provider of a name, or the error that there is none. -/
def find (r : Registry ε) (name : String) : Except ProviderError (Provider ε) :=
  match r.get? name with
  | some entry => .ok entry.provider
  | none => .error (.notFound name)

/-- Registers a provider under its name. -/
def register (r : Registry ε) (p : Provider ε) : Registration ε :=
  let generation := r.latest + 1
  { registry := ⟨Dict.insert r.entries p.name ⟨p, generation⟩, generation⟩
    generation
    replaced := r.get? p.name }

/-- The generation of a name. -/
def generation? (r : Registry ε) (name : String) : Option Nat :=
  (r.get? name).map Registered.generation

/-- All names in order. -/
def names (r : Registry ε) : List String := r.entries.map Prod.fst

/-- The number of providers. -/
def size (r : Registry ε) : Nat := r.entries.length

/-- Changes the provider of a generation, if it is still there. -/
def modify (r : Registry ε) (generation : Nat) (f : Provider ε → Provider ε) : Registry ε :=
  let change (entry : Registered ε) : Registered ε :=
    if entry.generation = generation then { entry with provider := f entry.provider } else entry
  { r with entries := Dict.mapValues change r.entries }

/-- Drops all providers, and yields them to be closed. -/
def closeAll (r : Registry ε) : Registry ε × List (Registered ε) :=
  ({ r with entries := [] }, r.entries.map Prod.snd)

end Registry

end ItemComposition
