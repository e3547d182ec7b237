import ItemComposition.DataFormat
import ItemComposition.Provider.Error
import ItemComposition.Provider.Spec
import ItemComposition.Text.Placeholder
import ItemComposition.Yaml.Value

/-!
# Provider documents

A document is read as it is written, with everything that may be absent, and then checked; the
first rule that it breaks is reported. `ProviderSpec.ofDocument` does both.
-/

namespace ItemComposition

/-- A duration as written. -/
inductive WrittenDuration where
  | nanos (n : Int)
  | text (s : String)
  deriving DecidableEq, Repr

/-- A method as written. -/
structure MethodDocument where
  package : String
  service : String
  method : String
  kind : String
  timeout : Option WrittenDuration
  filter : String
  request : Option (Dict String)
  response : Option (Dict String)

/-- A schema as written. -/
structure SchemaDocument where
  proto : Option String
  protoFile : Option String

/-- A provider as written. -/
structure ProviderDocument where
  version : String
  kind : String
  name : String
  labels : Dict String
  address : String
  timeout : Option WrittenDuration
  logging : Bool
  headers : Option (Dict String)
  methods : List MethodDocument
  schema : Option SchemaDocument

/-! ## Reading -/

section Reading

variable {ν : Type}

/-- Reads a duration: nanoseconds in the signed 64-bit range, or a text. -/
def WrittenDuration.read? (f : DataFormat ν) (v : ν) : Option WrittenDuration :=
  match f.value? v with
  | some (.num n) => n.toInt64?.map WrittenDuration.nanos
  | some (.str s) => some (.text s)
  | _ => none

/-- Reads a method. -/
def MethodDocument.read? (f : DataFormat ν) (v : ν) : Option MethodDocument := do
  let fields ← f.record? ["package", "service", "method", "type", "timeout", "filter", "request",
    "response"] v
  let text (name : String) : Option String := DataFormat.field fields name f.text? ""
  let package ← text "package"
  let service ← text "service"
  let method ← text "method"
  let kind ← text "type"
  let timeout ← f.optionalField fields "timeout" (WrittenDuration.read? f)
  let filter ← DataFormat.field fields "filter" (fun v => do
    let fields ← f.record? ["if"] v
    DataFormat.field fields "if" f.text? "") ""
  let request ← f.optionalField fields "request" f.texts?
  let response ← f.optionalField fields "response" f.texts?
  return { package, service, method, kind, timeout, filter, request, response }

/-- Reads a schema. -/
def SchemaDocument.read? (f : DataFormat ν) (v : ν) : Option SchemaDocument := do
  let fields ← f.record? ["proto", "proto_file"] v
  let proto ← f.optionalField fields "proto" f.text?
  let protoFile ← f.optionalField fields "proto_file" f.text?
  return { proto, protoFile }

/-- Reads a provider. -/
def ProviderDocument.read? (f : DataFormat ν) (v : ν) : Option ProviderDocument := do
  let top ← f.record? ["version", "kind", "metadata", "spec"] v
  let version ← DataFormat.field top "version" f.text? ""
  let kind ← DataFormat.field top "kind" f.text? ""
  let (name, labels) ← DataFormat.field top "metadata" (fun v => do
    let fields ← f.record? ["name", "labels"] v
    let name ← DataFormat.field fields "name" f.text? ""
    let labels ← DataFormat.field fields "labels" f.texts? []
    return (name, labels)) ("", [])
  let spec ← DataFormat.field top "spec"
    (f.record? ["transport", "payload", "methods", "schema"]) []
  let (address, timeout, logging) ← DataFormat.field spec "transport" (fun v => do
    let fields ← f.record? ["address", "timeout", "logging"] v
    let address ← DataFormat.field fields "address" f.text? ""
    let timeout ← f.optionalField fields "timeout" (WrittenDuration.read? f)
    let logging ← DataFormat.field fields "logging" (fun v => do
      let fields ← f.record? ["enabled"] v
      DataFormat.field fields "enabled" f.bool? false) false
    return (address, timeout, logging)) ("", none, false)
  let headers ← DataFormat.field spec "payload" (fun v => do
    let fields ← f.record? ["headers"] v
    f.optionalField fields "headers" f.texts?) none
  let methods ← DataFormat.field spec "methods" (f.listOf (MethodDocument.read? f)) []
  let schema ← f.optionalField spec "schema" (SchemaDocument.read? f)
  return { version, kind, name, labels, address, timeout, logging, headers, methods, schema }

end Reading

/-! ## Rules -/

/-- Whether a text is empty or blank. -/
def isBlankText (s : String) : Bool := s.toList.all Text.isBlank

/-- The nanoseconds of a duration as written. -/
def WrittenDuration.toNanos : WrittenDuration → Except DurationError Int
  | nanos n => .ok n
  | text s => Amount.readAll? s

/-- A duration that has to be there, positive and below `2 ^ 64` nanoseconds. -/
def positiveNanos : Option WrittenDuration → Except TimeoutFault Nat
  | none => .error .missing
  | some d =>
    match d.toNanos with
    | .error cause => .error (.malformed cause)
    | .ok n =>
      if n ≤ 0 then .error .notPositive
      else if n < Word.size 64 then .ok n.toNat
      else .error .tooLarge

/-- Characters of filters. -/
def isFilterChar (c : Char) : Bool :=
  c.isAlphanum || Text.isBlank c || ".()+-*/><=!&|:\"',[]\x7b\x7d_".toList.contains c

/-- Characters of mapped paths. -/
def isMappingChar (c : Char) : Bool := c.isAlphanum || "._[]\"'".toList.contains c

/-- Whether a mapped path has the right characters, and at least one. -/
def isMappingValue (s : String) : Bool := s ≠ "" && s.toList.all isMappingChar

namespace MethodDocument

/-- The first field that has to be there and is blank. -/
def missingField? (m : MethodDocument) : Option String :=
  let fields := [("package", m.package), ("service", m.service), ("method", m.method),
    ("type", m.kind)]
  (fields.find? fun f => isBlankText f.2).map Prod.fst

/-- The first entry of a mapping that breaks a rule. -/
def entryFault? (side : MappingSection) (mapping : Dict String) : Option MethodFault :=
  mapping.findSome? fun e =>
    if isBlankText e.1 then some (.mappingKey side)
    else if isMappingValue e.2 then none
    else some (.mappingValue side e.1 e.2)

/-- What is wrong with a mapping. -/
def mappingFault? (side : MappingSection) : Option (Dict String) → Option MethodFault
  | none => some (.mappingMissing side)
  | some mapping => entryFault? side mapping

/-- What is wrong with a duration. -/
def timeoutFault? (d : Option WrittenDuration) : Option TimeoutFault :=
  match positiveNanos d with
  | .ok _ => none
  | .error fault => some fault

/-- The first rule that a method breaks. -/
def fault? (m : MethodDocument) : Option MethodFault :=
  match m.missingField? with
  | some field => some (.missing field)
  | none =>
    if (MethodKind.read? (Text.trim m.kind)).isNone then some (.unknownKind m.kind)
    else
      match timeoutFault? m.timeout with
      | some fault => some (.timeout fault)
      | none =>
        if !(Text.trim m.filter).toList.all isFilterChar then some .filterCharacters
        else (mappingFault? .request m.request).or (mappingFault? .response m.response)

end MethodDocument

namespace ProviderDocument

/-- The kind of all providers. -/
def requiredKind : String := "ProviderGRPC"

/-- The first variable of a text that has no value. -/
def unset? (environment : Dict String) (value : String) : Option String :=
  (Placeholder.names value.toList).find? fun name => (environment.get? name).isNone

/-- What is wrong with headers. -/
def headerFault? (environment : Dict String) (headers : Dict String) : Option SpecFault :=
  headers.findSome? fun h =>
    if isBlankText h.1 then some .headerKey
    else (unset? environment h.2).map (.unsetVariable h.1)

/-- What is wrong with methods. -/
def methodsFault? (index : Nat) : List MethodDocument → Option SpecFault
  | [] => none
  | m :: rest =>
    match m.fault? with
    | some fault => some (.method index fault)
    | none => methodsFault? (index + 1) rest

/-- Whether a schema is given in two ways. -/
def hasTwoSchemas (d : ProviderDocument) : Bool :=
  d.schema.any fun s => s.proto.isSome && s.protoFile.isSome

/-- The first rule that a provider breaks. -/
def fault? (environment : Dict String) (d : ProviderDocument) : Option SpecFault :=
  if isBlankText d.version then some (.missing "version")
  else if Text.trim d.kind ≠ requiredKind then some (.wrongKind d.kind)
  else if isBlankText d.name then some (.missing "metadata.name")
  else if isBlankText d.address then some (.missing "transport address")
  else
    match MethodDocument.timeoutFault? d.timeout with
    | some fault => some (.timeout fault)
    | none =>
      match d.headers with
      | none => some .noHeaders
      | some headers =>
        match headerFault? environment headers with
        | some fault => some fault
        | none =>
          if d.methods.isEmpty then some .noMethods
          else
            match methodsFault? 0 d.methods with
            | some fault => some fault
            | none => if d.hasTwoSchemas then some .twoSchemas else none

end ProviderDocument

/-! ## From documents to providers -/

/-- The method that a document describes at an index. -/
def MethodDocument.spec (index : Nat) (m : MethodDocument) : Except SpecFault MethodSpec :=
  match MethodKind.read? (Text.trim m.kind), positiveNanos m.timeout with
  | none, _ => .error (.method index (.unknownKind m.kind))
  | some _, .error fault => .error (.method index (.timeout fault))
  | some kind, .ok timeout => .ok {
      package := Text.trim m.package
      service := Text.trim m.service
      method := Text.trim m.method
      kind := kind
      timeout := timeout
      filter := (some (Text.trim m.filter)).filter (· ≠ "")
      request := m.request.getD []
      response := m.response.getD [] }

/-- The methods that documents describe, from an index on. -/
def methodSpecs (index : Nat) : List MethodDocument → Except SpecFault (List MethodSpec)
  | [] => .ok []
  | m :: rest => do
    let spec ← m.spec index
    let specs ← methodSpecs (index + 1) rest
    return spec :: specs

/-- The headers with the values of variables put in. -/
def expandHeaders (environment : Dict String) : Dict String → Except SpecFault (Dict String)
  | [] => .ok []
  | (key, value) :: rest =>
    match Placeholder.expand environment value, expandHeaders environment rest with
    | .ok expanded, .ok others => .ok ((key, expanded) :: others)
    | .error name, _ => .error (.unsetVariable key name)
    | .ok _, .error fault => .error fault

/-- The schema that a document names: a source text, or else a path. -/
def SchemaDocument.source? (s : SchemaDocument) : Option SchemaSource :=
  match s.proto.filter (!isBlankText ·), s.protoFile.filter (!isBlankText ·) with
  | some source, _ => some (.inline source)
  | none, some path => some (.file path)
  | none, none => none

/-- The provider that a document describes. -/
def ProviderDocument.spec (environment : Dict String) (d : ProviderDocument) :
    Except SpecFault ProviderSpec := do
  let timeout ← (positiveNanos d.timeout).mapError SpecFault.timeout
  let headers ← expandHeaders environment (d.headers.getD [])
  let methods ← methodSpecs 0 d.methods
  return {
    version := d.version
    name := d.name
    labels := d.labels
    address := d.address
    timeout := timeout
    logging := d.logging
    headers := headers
    methods := methods
    schema := d.schema.bind SchemaDocument.source? }

namespace ProviderSpec

/-- Checks a document and turns it into a provider. -/
def build (environment : Dict String) (d : ProviderDocument) : Except ProviderError ProviderSpec :=
  match d.fault? environment with
  | some fault => .error (.invalidSpec fault)
  | none => (d.spec environment).mapError ProviderError.invalidSpec

/-- Reads a provider in any format. -/
def ofValue {ν : Type} (f : DataFormat ν) (environment : Dict String) (v : ν) :
    Except ProviderError ProviderSpec :=
  match ProviderDocument.read? f v with
  | some d => build environment d
  | none => .error .document

/-- Reads a provider from a decoded document. -/
def ofDocument (environment : Dict String) (document : Json) : Except ProviderError ProviderSpec :=
  ofValue .json environment document

/-- Reads a provider from a text that holds exactly one document. -/
def ofYaml (environment : Dict String) (bytes : List UInt8) : Except ProviderError ProviderSpec :=
  match Yaml.Stream.ofBytes bytes with
  | [some document] => ofValue Yaml.Node.format environment document
  | _ => .error .document

end ProviderSpec

end ItemComposition
