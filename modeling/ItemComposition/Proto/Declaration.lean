import ItemComposition.Word

/-!
# Schema declarations

What a schema file declares, with the names of types as they are written: a name with a dot in
front is a full name, any other is looked up from the place where it stands.
-/

namespace ItemComposition.Proto

/-- Types of single values. -/
inductive ScalarType where
  | double
  | float
  | int64
  | uint64
  | int32
  | fixed64
  | fixed32
  | bool
  | string
  | bytes
  | uint32
  | sfixed32
  | sfixed64
  | sint32
  | sint64
  deriving DecidableEq, Repr

namespace ScalarType

/-- All types with their words in sources and their numbers in descriptions. -/
def table : List (ScalarType × String × Nat) :=
  [(double, "double", 1), (float, "float", 2), (int64, "int64", 3), (uint64, "uint64", 4),
   (int32, "int32", 5), (fixed64, "fixed64", 6), (fixed32, "fixed32", 7), (bool, "bool", 8),
   (string, "string", 9), (bytes, "bytes", 12), (uint32, "uint32", 13), (sfixed32, "sfixed32", 15),
   (sfixed64, "sfixed64", 16), (sint32, "sint32", 17), (sint64, "sint64", 18)]

/-- The type of a word. -/
def ofWord? (word : String) : Option ScalarType :=
  (table.find? fun e => e.2.1 = word).map Prod.fst

/-- The type of a number. -/
def ofNumber? (n : Nat) : Option ScalarType := (table.find? fun e => e.2.2 = n).map Prod.fst

/-- The number of a type. -/
def number (t : ScalarType) : Nat := ((table.find? fun e => e.1 = t).map fun e => e.2.2).getD 0

/-- Whether values of a type say how long they are, so that they cannot be packed. -/
def isDelimited : ScalarType → Bool
  | string | bytes => true
  | _ => false

/-- Whether a type may be that of a map's keys. -/
def isKeyType : ScalarType → Bool
  | double | float | bytes => false
  | _ => true

end ScalarType

/-- The greatest number that a field may have. -/
def greatestFieldNumber : Nat := Word.size 29 - 1

/-- Numbers that fields may have; those from 19000 to 19999 are set aside. -/
def isFieldNumber (n : Nat) : Bool :=
  0 < n && n ≤ greatestFieldNumber && !(19000 ≤ n && n ≤ 19999)

/-- The type of a field. -/
inductive TypeName where
  | scalar (t : ScalarType)
  | named (name : String)
  deriving DecidableEq, Repr

/-- How often a field may occur. -/
inductive Label where
  | optional
  | required
  | repeated
  deriving DecidableEq, Repr

/-- A field of a message. -/
structure FieldDecl where
  name : String
  number : Nat
  label : Label
  /-- Whether the label is written where it may be left out, so that absence is told from zero. -/
  tracked : Bool
  type : TypeName
  /-- The name in JSON, if one is given. -/
  jsonName : Option String
  packed : Option Bool
  /-- The group of fields of which at most one is set. -/
  oneof : Option Nat

/-- An enumeration. -/
structure EnumDecl where
  name : String
  values : List (String × Int)
  allowAlias : Bool
  reservedRanges : List (Int × Int)
  reservedNames : List String

/-- A message. Ranges include both ends. -/
structure MessageDecl where
  name : String
  fields : List FieldDecl
  messages : List MessageDecl
  enums : List EnumDecl
  oneofs : List String
  reservedRanges : List (Nat × Nat)
  reservedNames : List String
  extensionRanges : List (Nat × Nat)
  /-- Whether the message is an entry of a map. -/
  isMapEntry : Bool

/-- A method of a service. -/
structure MethodDecl where
  name : String
  input : String
  output : String
  streamsInput : Bool
  streamsOutput : Bool

/-- A service. -/
structure ServiceDecl where
  name : String
  methods : List MethodDecl

/-- Another file whose declarations may be named. -/
structure ImportDecl where
  path : String
  /-- Whether files that import this one may name them too. -/
  isPublic : Bool

/-- The two editions of the schema language. -/
inductive Edition where
  | proto2
  | proto3
  deriving DecidableEq, Repr

/-- A schema file. -/
structure FileDecl where
  name : String
  package : String
  edition : Edition
  imports : List ImportDecl
  messages : List MessageDecl
  enums : List EnumDecl
  services : List ServiceDecl

/-- A name inside a scope. -/
def joinName (scope name : String) : String := if scope = "" then name else scope ++ "." ++ name

/-- A name with underscores in camel case, as JSON names are by default. -/
def camelCase (name : String) : String :=
  let step (acc : List Char × Bool) (c : Char) : List Char × Bool :=
    if c = '_' then (acc.1, true)
    else (acc.1 ++ [if acc.2 then c.toUpper else c], false)
  String.ofList (name.toList.foldl step ([], false)).1

/-- The name of a field in JSON. -/
def FieldDecl.nameInJson (f : FieldDecl) : String := f.jsonName.getD (camelCase f.name)

/-- The name of the message that describes the entries of a map. -/
def mapEntryName (field : String) : String :=
  let camel := (camelCase field).toList
  String.ofList (match camel with
    | c :: rest => c.toUpper :: rest
    | [] => []) ++ "Entry"

end ItemComposition.Proto
