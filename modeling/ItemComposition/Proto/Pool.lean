import ItemComposition.Dict
import ItemComposition.Proto.Declaration

/-!
# Pools of messages and services

A pool holds everything that a list of files declares, under full names and with every name of a
type resolved. `Pool.link?` builds it and refuses files that break a rule of the schema language.
-/

namespace ItemComposition.Proto

/-- The type of a value; messages and enumerations by their full names. -/
inductive ValueType where
  | scalar (t : ScalarType)
  | enumeration (name : String)
  | message (name : String)
  deriving DecidableEq, Repr

/-- Whether values of a type may be packed. -/
def ValueType.isPackable : ValueType → Bool
  | .scalar t => !t.isDelimited
  | .enumeration _ => true
  | .message _ => false

/-- Whether values of a type are messages. -/
def ValueType.isMessage : ValueType → Bool
  | .message _ => true
  | _ => false

/-- What a field holds. -/
inductive FieldForm where
  /-- One value. If it is tracked, absence is told from the default. Of the fields with one group
  at most one is set. -/
  | single (type : ValueType) (tracked : Bool) (group : Option Nat)
  | list (type : ValueType) (packed : Bool)
  | map (key : ScalarType) (value : ValueType)
  deriving DecidableEq, Repr

/-- A field of a message. -/
structure Field where
  name : String
  jsonName : String
  number : Nat
  form : FieldForm
  deriving DecidableEq, Repr

/-- The values of an enumeration in the order of their declaration. -/
abbrev EnumType := List (String × Int)

/-- A method with the full names of its messages. -/
structure Method where
  name : String
  input : String
  output : String
  deriving DecidableEq, Repr

/-- Messages, enumerations and services under their full names. -/
structure Pool where
  messages : Dict (List Field)
  enums : Dict EnumType
  services : Dict (List Method)

namespace Pool

/-! ## Names -/

/-- What a full name stands for. -/
inductive Meaning where
  | package
  | message
  | enumeration
  /-- A field, a value, a service or a method. -/
  | other
  deriving DecidableEq

/-- A full name and what it stands for. -/
abbrev Symbol := String × Meaning

mutual

/-- A message with those inside it, under their full names. -/
def flatten (scope : String) : MessageDecl → List (String × MessageDecl)
  | ⟨name, fields, messages, enums, oneofs, ranges, names, extensions, isMapEntry⟩ =>
    let full := joinName scope name
    (full, ⟨name, fields, messages, enums, oneofs, ranges, names, extensions, isMapEntry⟩)
      :: flattenAll full messages

/-- Messages with those inside them. -/
def flattenAll (scope : String) : List MessageDecl → List (String × MessageDecl)
  | [] => []
  | m :: rest => flatten scope m ++ flattenAll scope rest

end

/-- All messages of a file under their full names. -/
def messagesOf (f : FileDecl) : List (String × MessageDecl) := flattenAll f.package f.messages

/-- All enumerations of a file with their scopes. -/
def enumsOf (f : FileDecl) : List (String × EnumDecl) :=
  f.enums.map (f.package, ·) ++ (messagesOf f).flatMap fun m => m.2.enums.map (m.1, ·)

/-- A name and the names of the scopes around it, innermost first. -/
def scopes (name : String) : List String :=
  let rec go (parts : List String) : List String :=
    match parts with
    | [] => [""]
    | p :: rest => ".".intercalate (p :: rest).reverse :: go rest
  if name = "" then [""] else go (name.splitOn ".").reverse

/-- The names that a file declares. Values of an enumeration stand beside it. -/
def declared (f : FileDecl) : List Symbol :=
  let messages := messagesOf f
  messages.map (fun m => (m.1, .message))
    ++ messages.flatMap (fun m => m.2.fields.map fun x => (joinName m.1 x.name, .other))
    ++ messages.flatMap (fun m => m.2.oneofs.map fun x => (joinName m.1 x, .other))
    ++ (enumsOf f).map (fun e => (joinName e.1 e.2.name, .enumeration))
    ++ (enumsOf f).flatMap (fun e => e.2.values.map fun v => (joinName e.1 v.1, .other))
    ++ f.services.map (fun s => (joinName f.package s.name, .other))
    ++ f.services.flatMap fun s =>
      s.methods.map fun m => (joinName (joinName f.package s.name) m.name, .other)

/-- The packages that a file lies in. -/
def packagesOf (f : FileDecl) : List Symbol :=
  ((scopes f.package).filter (· ≠ "")).map fun p => (p, .package)

/-- The files that a file's declarations may name: those it imports, and those that these import
for others. -/
def visible (files : List FileDecl) : Nat → FileDecl → List FileDecl
  | 0, f => [f]
  | fuel + 1, f =>
    f :: f.imports.flatMap fun i =>
      (files.filter fun g => g.name = i.path).flatMap fun g =>
        visible files fuel { g with imports := g.imports.filter (·.isPublic) }

/-- What a full name stands for among symbols. -/
def meaning? (symbols : List Symbol) (name : String) : Option Meaning :=
  (symbols.find? fun s => s.1 = name).map Prod.snd

/-- The type that a name stands for in a scope. The first part of a name with dots is looked up
from the inside out, and the rest inside what is found there. -/
def resolve? (symbols : List Symbol) (scope name : String) : Option (String × Meaning) :=
  let isType (full : String) : Option (String × Meaning) :=
    match meaning? symbols full with
    | some .message => some (full, .message)
    | some .enumeration => some (full, .enumeration)
    | _ => none
  match name.splitOn "." with
  | [] => none
  -- a name with a leading dot is a full one
  | "" :: parts => isType (".".intercalate parts)
  | [_] => (scopes scope).findSome? fun s => isType (joinName s name)
  | first :: _ =>
    let holder := (scopes scope).find? fun s =>
      -- only what can hold a type decides the scope
      match meaning? symbols (joinName s first) with
      | some .package | some .message => true
      | _ => false
    holder.bind fun s => isType (joinName s name)

/-- The value type that a name stands for. -/
def valueType? (symbols : List Symbol) (scope : String) : TypeName → Option ValueType
  | .scalar t => some (.scalar t)
  | .named name =>
    match resolve? symbols scope name with
    | some (full, .message) => some (.message full)
    | some (full, .enumeration) => some (.enumeration full)
    | _ => none

/-! ## Rules -/

/-- Whether no two entries are equal. -/
def areDistinct [BEq α] (l : List α) : Bool :=
  match l with
  | [] => true
  | a :: rest => !rest.contains a && areDistinct rest

/-- Rules that enumerations keep. -/
def isSoundEnum (edition : Edition) (e : EnumDecl) : Bool :=
  let numbers := e.values.map Prod.snd
  !e.values.isEmpty
    && (edition = .proto2 || numbers.head? = some 0)
    && (e.allowAlias || areDistinct numbers)
    && (e.values.all fun v =>
      !e.reservedNames.contains v.1
        && e.reservedRanges.all fun r => v.2 < r.1 || r.2 < v.2)

/-- Rules that messages keep. -/
def isSoundMessage (edition : Edition) (m : MessageDecl) : Bool :=
  areDistinct (m.fields.map (·.number))
    && (m.fields.all fun f =>
      isFieldNumber f.number
        && !m.reservedNames.contains f.name
        && (m.reservedRanges ++ m.extensionRanges).all fun r => f.number < r.1 || r.2 < f.number)
    -- the second edition lets names in JSON clash
    && (edition = .proto2
      || (areDistinct (m.fields.map (·.nameInJson))
        && areDistinct (m.fields.map fun f => camelCase f.name)))
    && (m.fields.all fun f => match f.oneof with
      | some n => n < m.oneofs.length
      | none => true)

/-! ## Linking -/

/-- The entries of a map: the types of its keys and values. -/
def entryTypes? (symbols : List Symbol) (scope : String) (entry : MessageDecl) :
    Option (ScalarType × ValueType) := do
  let key ← entry.fields.find? (·.number = 1)
  let value ← entry.fields.find? (·.number = 2)
  match key.type with
  | .scalar t => return (t, ← valueType? symbols scope value.type)
  | .named _ => none

/-- What a repeated field holds: a map if its type is that of a map's entries, else a list. -/
def repeatedForm? (edition : Edition) (symbols : List Symbol)
    (messages : List (String × MessageDecl)) (packed : Option Bool) (type : ValueType) :
    Option FieldForm :=
  let entry : Option (String × MessageDecl) := match type with
    | .message full => messages.find? fun m => m.1 = full && m.2.isMapEntry
    | _ => none
  match entry with
  | some (full, m) => (entryTypes? symbols full m).map fun t => .map t.1 t.2
  | none =>
    -- only numbers can be packed, and they are in the third edition unless a file says otherwise
    if packed.isSome && !type.isPackable then none
    else some (.list type (type.isPackable && packed.getD (edition = .proto3)))

/-- What a field holds, given its type. -/
def form? (edition : Edition) (symbols : List Symbol) (messages : List (String × MessageDecl))
    (groups : Nat) (f : FieldDecl) (type : ValueType) : Option FieldForm :=
  if f.label = .repeated then repeatedForm? edition symbols messages f.packed type
  else if f.packed.isSome then none
  else
    -- a tracked field forms a group of its own
    let group := f.oneof.or (if f.tracked then some (groups + f.number) else none)
    some (.single type (edition = .proto2 || group.isSome || type.isMessage) group)

/-- A field with its type resolved. -/
def linkField? (edition : Edition) (symbols : List Symbol) (messages : List (String × MessageDecl))
    (scope : String) (groups : Nat) (f : FieldDecl) : Option Field := do
  let type ← valueType? symbols scope f.type
  let form ← form? edition symbols messages groups f type
  return ⟨f.name, f.nameInJson, f.number, form⟩

/-- A method with its types resolved. -/
def linkMethod? (symbols : List Symbol) (scope : String) (m : MethodDecl) : Option Method := do
  match resolve? symbols scope m.input, resolve? symbols scope m.output with
  | some (input, .message), some (output, .message) => return ⟨m.name, input, output⟩
  | _, _ => none

/-- What one file adds to a pool. -/
def linkFile? (files : List FileDecl) (f : FileDecl) : Option Pool := do
  let inReach := visible files files.length f
  let symbols := inReach.flatMap declared ++ inReach.flatMap packagesOf
  let known := inReach.flatMap messagesOf
  let own := messagesOf f
  if !(f.imports.all fun i => files.any fun g => g.name = i.path) then none
  else if !((enumsOf f).all fun e => isSoundEnum f.edition e.2) then none
  else if !(own.all fun m => isSoundMessage f.edition m.2) then none
  else
    let messages ← own.mapM fun m => do
      let fields ← m.2.fields.mapM (linkField? f.edition symbols known m.1 m.2.oneofs.length)
      return (m.1, fields)
    let services ← f.services.mapM fun s => do
      let full := joinName f.package s.name
      let methods ← s.methods.mapM (linkMethod? symbols full)
      return (full, methods)
    let enums := (enumsOf f).map fun e => (joinName e.1 e.2.name, e.2.values)
    return ⟨Dict.ofList messages, Dict.ofList enums, Dict.ofList services⟩

/-- The pool of files that import only each other. -/
def link? (files : List FileDecl) : Option Pool := do
  let declared := files.flatMap declared
  let packages := files.flatMap packagesOf
  let sound := areDistinct (files.map (·.name)) && areDistinct (declared.map Prod.fst)
    && packages.all fun p => (meaning? declared p.1).isNone
  if sound then
    let parts ← files.mapM (linkFile? files)
    return parts.foldl (fun pool p =>
      ⟨pool.messages.union p.messages, pool.enums.union p.enums, pool.services.union p.services⟩)
      ⟨[], [], []⟩
  else none

/-! ## Look-ups -/

/-- The fields of a message. -/
def fields (pool : Pool) (message : String) : List Field := (pool.messages.get? message).getD []

/-- The values of an enumeration. -/
def values (pool : Pool) (enumeration : String) : EnumType := (pool.enums.get? enumeration).getD []

/-- The number that an enumeration starts with. -/
def defaultNumber (pool : Pool) (enumeration : String) : Int :=
  ((pool.values enumeration).head?.map Prod.snd).getD 0

end Pool

/-! ## Files that import files -/

/-- How deep imports may nest. -/
def maxImportNesting : Nat := 1000

/-- Adds a file and those it imports to the files that are there, each once and after its imports.
`within` holds the files whose imports are being added, so that no file imports itself. -/
def addFile (read : String → Option FileDecl) :
    Nat → (within : List String) → List FileDecl → String → Option (List FileDecl)
  | 0, _, _, _ => none
  | fuel + 1, within, files, name =>
    if files.any fun f => f.name = name then some files
    else if within.contains name then none
    else do
      let f ← read name
      let files ← f.imports.foldlM (fun files i => addFile read fuel (name :: within) files i.path)
        files
      return files ++ [f]

/-- A file with all that it imports. -/
def filesFor? (read : String → Option FileDecl) (name : String) : Option (List FileDecl) :=
  addFile read maxImportNesting [] [] name

end ItemComposition.Proto
