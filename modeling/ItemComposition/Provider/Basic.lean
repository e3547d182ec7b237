import ItemComposition.Condition
import ItemComposition.Provider.Document
import ItemComposition.Provider.Retry
import ItemComposition.Provider.Schema

/-!
# Providers at work

A provider is made from its description: the texts of filters and mappings are parsed once, and a
schema is attached if the description names one. A schema can be attached later too; it is accepted
only if it has all methods of the provider.
-/

namespace ItemComposition

/-- What a provider needs to know about its surroundings: the environment variables and the files
that can be opened. -/
structure Surroundings where
  environment : Dict String
  openFile : String → Option Proto.Bytes

/-- A method with its filter and its mapping parsed. -/
structure CompiledMethod where
  spec : MethodSpec
  filter : Option Expression
  request : List (String × Expression)

namespace CompiledMethod

/-- Parses the mapping of a request. -/
def compileRequest (name : String) : Dict String → Except SpecFault (List (String × Expression))
  | [] => .ok []
  | (field, path) :: rest =>
    match Expression.parse path with
    | .error cause => .error (.badMapping name field cause)
    | .ok e =>
      match compileRequest name rest with
      | .error fault => .error fault
      | .ok others => .ok ((field, e) :: others)

/-- Parses the filter of a method. -/
def compileFilter (name : String) : Option String → Except SpecFault (Option Expression)
  | none => .ok none
  | some text =>
    match Expression.parse text with
    | .error cause => .error (.badFilter name cause)
    | .ok e => .ok (some e)

/-- Parses the texts of a method. -/
def compile (m : MethodSpec) : Except SpecFault CompiledMethod := do
  let filter ← compileFilter m.method m.filter
  let request ← compileRequest m.method m.request
  return ⟨m, filter, request⟩

/-- The fields of a request. -/
def mappedFields (env : Json) : List (String × Expression) →
    Except EncodeFault (List (String × Json))
  | [] => .ok []
  | (field, e) :: rest =>
    match e.root.eval env with
    | .error cause => .error (.field field cause)
    | .ok v =>
      match mappedFields env rest with
      | .error fault => .error fault
      | .ok others => .ok ((field, v) :: others)

/-- The request for an item: the mapped fields, or the item itself without a mapping. -/
def requestFor (m : CompiledMethod) (item : Json) : Except EncodeFault Json :=
  if m.request.isEmpty then .ok item
  else
    match mappedFields (.obj [(PathTarget.itemName, item)]) m.request with
    | .ok fields => .ok (Json.object fields)
    | .error fault => .error fault

end CompiledMethod

/-- A provider. `endpoint` says where its calls go. -/
structure Provider (ε : Type) where
  spec : ProviderSpec
  methods : List CompiledMethod
  retry : RetryPolicy
  endpoint : ε
  /-- The schemas of all methods, if a schema is attached. -/
  schemas : Option (List (String × MethodSchema))

namespace Provider

variable {ε : Type}

/-- The name under which a provider is known. -/
def name (p : Provider ε) : String := p.spec.name

/-- The method of a name; of several the last. -/
def compiled? (p : Provider ε) (name : String) : Option CompiledMethod :=
  p.methods.reverse.find? fun m => m.spec.method = name

/-- The description of a method. -/
def method (p : Provider ε) (name : String) : Except ProviderError MethodSpec :=
  match p.compiled? name with
  | some m => .ok m.spec
  | none => .error (.methodNotFound p.name name)

/-- Whether a schema is attached. -/
def hasSchema (p : Provider ε) : Bool := p.schemas.isSome

/-- Finds the schemas of methods. Of several methods of one name only the last is ever called, so
the others need none. -/
def resolveAll {φ : Type} (resolve : MethodSpec → Except φ MethodSchema) :
    List CompiledMethod → Except φ (List (String × MethodSchema))
  | [] => .ok []
  | m :: rest =>
    -- a later method of the same name takes its place
    if rest.any fun later => later.spec.method = m.spec.method then resolveAll resolve rest
    else
      match resolve m.spec with
      | .error fault => .error fault
      | .ok schema =>
        match resolveAll resolve rest with
        | .error fault => .error fault
        | .ok others => .ok ((m.spec.method, schema) :: others)

/-- Attaches a schema, if it has all methods. -/
def attach (p : Provider ε) (resolve : MethodSpec → Except SchemaFault MethodSchema) :
    Except SchemaFault (Provider ε) :=
  match resolveAll resolve p.methods with
  | .ok schemas => .ok { p with schemas := some schemas }
  | .error fault => .error fault

/-- Compiles a source text and attaches it. -/
def attachSource (p : Provider ε) (source : String) : Except SchemaFault (Provider ε) :=
  match Schema.ofSource (p.name ++ ".proto") source with
  | .ok schema => p.attach schema.resolve
  | .error fault => .error fault

/-- The schema of a method. -/
def schemaOf (p : Provider ε) (m : CompiledMethod) : Except ProviderError MethodSchema :=
  match p.schemas.bind fun schemas =>
      (schemas.reverse.find? fun s => s.1 = m.spec.method).map Prod.snd with
  | some schema => .ok schema
  | none => .error (.schema (.absent p.name))

/-- Attaches the schema that a description names. -/
def attachNamed (openFile : String → Option Proto.Bytes) (p : Provider ε) :
    Except SchemaFault (Provider ε) :=
  match p.spec.schema with
  | none => .ok p
  | some (.inline source) => p.attachSource source
  | some (.file path) =>
    match Schema.ofFile openFile path with
    | .ok schema => p.attach schema.resolve
    | .error fault => .error fault

/-- Makes a provider whose calls go to an endpoint. -/
def make (openFile : String → Option Proto.Bytes) (retry : RetryPolicy) (endpoint : ε)
    (spec : ProviderSpec) : Except ProviderError (Provider ε) :=
  match spec.methods.mapM CompiledMethod.compile with
  | .error fault => .error (.invalidSpec fault)
  | .ok methods =>
    (attachNamed openFile ⟨spec, methods, retry, endpoint, none⟩).mapError ProviderError.schema

end Provider

end ItemComposition
