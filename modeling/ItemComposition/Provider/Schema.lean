import ItemComposition.Provider.Error
import ItemComposition.Provider.Spec
import ItemComposition.Proto.DescriptorSet
import ItemComposition.Proto.JsonForm

/-!
# Schemas of providers

A schema is compiled when a provider is set up: from a source text, from a file with the files
that it imports, or from a descriptor set. `Schema.resolve` finds the messages of a method.
-/

namespace ItemComposition

/-- Compiled schema files, and what they declare. -/
structure Schema where
  files : List Proto.FileDecl
  pool : Proto.Pool

/-- The messages of a method, and the path under which it is called. -/
structure MethodSchema where
  pool : Proto.Pool
  path : String
  input : String
  output : String

namespace Schema

/-- The schema of a file and of all that it imports. -/
def compile? (read : String → Option Proto.FileDecl) (name : String) : Option Schema := do
  let files ← Proto.filesFor? read name
  let pool ← Proto.Pool.link? files
  return ⟨files, pool⟩

/-- Compiles a source text under the name of a file. It may import well-known files only. -/
def ofSource (name source : String) : Except SchemaFault Schema :=
  let read (path : String) : Option Proto.FileDecl :=
    if path = name then Proto.FileDecl.ofSource? name source.toList
    else Proto.WellKnown.file? path
  match compile? read name with
  | some schema => .ok schema
  | none => .error (.compile name)

/-- A path up to its last slash, and what follows. -/
def splitPath (path : String) : String × String :=
  let name := (path.toList.reverse.takeWhile (· ≠ '/')).reverse
  (String.ofList (path.toList.take (path.length - name.length)), String.ofList name)

/-- Compiles a file. Imports are looked up in its directory, then among well-known files. `openFile`
yields the bytes of a file, if there is one. -/
def ofFile (openFile : String → Option Proto.Bytes) (path : String) : Except SchemaFault Schema :=
  let (directory, name) := splitPath path
  let read (relative : String) : Option Proto.FileDecl :=
    match openFile (directory ++ relative) with
    | some bytes =>
      (Text.decode? bytes).bind fun text => Proto.FileDecl.ofSource? relative text.toList
    -- known files stand in for those that are imported, not for the schema itself
    | none => if relative = name then none else Proto.WellKnown.file? relative
  match compile? read name with
  | some schema => .ok schema
  | none => .error (.compile path)

/-- Reads a descriptor set. -/
def ofDescriptorSet (bytes : Proto.Bytes) : Except SchemaFault Schema :=
  let schema? := do
    let files ← Proto.FileDecl.readSet? bytes
    let pool ← Proto.Pool.link? files
    return Schema.mk files pool
  match schema? with
  | some schema => .ok schema
  | none => .error .descriptorSet

/-- A schema as a descriptor set. -/
def toDescriptorSet (s : Schema) : Proto.Bytes := Proto.FileDecl.writeSet s.files

/-- The messages of a method. -/
def resolve (s : Schema) (m : MethodSpec) : Except SchemaFault MethodSchema :=
  let service := m.serviceFullName
  match s.pool.services.get? service with
  | none => .error (.unknownService service)
  | some methods =>
    match methods.find? fun d => d.name = m.method with
    | none => .error (.unknownMethod service m.method)
    | some d => .ok ⟨s.pool, "/" ++ service ++ "/" ++ d.name, d.input, d.output⟩

end Schema

namespace MethodSchema

/-- The request that a value stands for. -/
def request (s : MethodSchema) (v : Json) : Except ProviderError Proto.Message :=
  match Proto.Message.ofJson? s.pool s.input v with
  | some m => .ok m
  | none => .error (.encode (.message s.input))

/-- The value of a response. -/
def value (s : MethodSchema) (response : Proto.Message) : Except ProviderError Json :=
  match Proto.Message.toJson? s.pool s.output response with
  | some v => .ok v
  | none => .error (.decode (s.output ++ ": " ++ detail))

end MethodSchema

end ItemComposition
