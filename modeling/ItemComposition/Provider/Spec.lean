import ItemComposition.Dict

/-!
# Providers as described

What a provider document says after it has been checked. Durations are in nanoseconds.
-/

namespace ItemComposition

/-- How a method takes items. -/
inductive MethodKind where
  | batch
  | domainBatch
  | item
  deriving DecidableEq, Repr

/-- The name of a kind. -/
def MethodKind.name : MethodKind → String
  | batch => "Batch"
  | domainBatch => "DomainBatch"
  | item => "Item"

/-- Reads the name of a kind. -/
def MethodKind.read? (s : String) : Option MethodKind :=
  [MethodKind.batch, .domainBatch, .item].find? fun k => k.name = s

/-- A method of a provider. -/
structure MethodSpec where
  package : String
  service : String
  method : String
  kind : MethodKind
  timeout : Nat
  filter : Option String
  request : Dict String
  response : Dict String

/-- The name of a method's service with its package. -/
def MethodSpec.serviceFullName (m : MethodSpec) : String :=
  if m.package = "" then m.service else m.package ++ "." ++ m.service

/-- Where a provider's schema comes from. -/
inductive SchemaSource where
  | inline (source : String)
  | file (path : String)

/-- A provider. -/
structure ProviderSpec where
  version : String
  name : String
  labels : Dict String
  address : String
  timeout : Nat
  logging : Bool
  headers : Dict String
  methods : List MethodSpec
  schema : Option SchemaSource

/-- The first method of a name. -/
def ProviderSpec.method? (p : ProviderSpec) (name : String) : Option MethodSpec :=
  p.methods.find? fun m => m.method = name

end ItemComposition
